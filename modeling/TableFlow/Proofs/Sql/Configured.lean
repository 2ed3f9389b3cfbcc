import TableFlow.Proofs.Formula.Scanning
import TableFlow.Sql.Config

/-!
# Quotes of configured dialects

A configuration may give either quote, and the default stands in for one that it does not give.
Reading a configuration compares the two that are given, but not one of them with the default of
the other (`Config.Collides`). The quotes of the dialect that is built differ just if there is no
such collision, and just then no quoted name can be read as a text (`Config.quotes_differ_iff`);
with one, every name is written as the text of the same content.
-/

namespace TableFlow

namespace Yaml

/-- The tokens of a text, from those that the scanner finds and those that it puts in between. -/
theorem tokens?_of_run {source : String} (found : List Token)
    (insertions : List (Nat × List Token)) {tokens : List Token}
    (allowed : source.toList.all isAllowed = true)
    (ran : ((Scanner.start source).run? (source.length + 1)).map
      (fun s => (s.tokens.reverse, s.insertions)) = some (found, insertions))
    (merged : merge 0 found (insertions.mergeSort (·.1 ≤ ·.1)) = tokens) :
    tokens? source = some tokens := by
  obtain ⟨s, run, parts⟩ := Option.map_eq_some_iff.1 ran
  obtain ⟨rfl, rfl⟩ := Prod.mk.inj parts
  rw [tokens?, allowed, run, ← merged]
  rfl

end Yaml

namespace Sql

/-! ## Literals -/

/-- The text that is quoted at the head of a list of characters, and what follows it. A quote
written twice is a quote in the text. -/
def Settings.literalAt? (s : Settings) : List Char → Option (String × List Char)
  | [] => none
  | c :: rest =>
    if c = s.textQuote then
      (Formula.closeQuote s.textQuote rest).map fun (content, tail) => (String.ofList content, tail)
    else none

section
variable {s : Settings} {name text : String} {tail : List Char}

theorem toList_quoteText : (Dialect.quoteText s text).toList =
    s.textQuote :: ((Formula.doubled s.textQuote text).toList ++ [s.textQuote]) := by
  simp [Dialect.quoteText]

theorem toList_quoteName :
    (Dialect.quoteName s name).toList = s.nameQuote :: (name.toList ++ [s.nameQuote]) := by
  simp [Dialect.quoteName]

/-- A quoted text is read back. -/
theorem literalAt?_quoteText (apart : ∀ c ∈ tail.head?, c ≠ s.textQuote) :
    s.literalAt? ((Dialect.quoteText s text).toList ++ tail) = some (text, tail) := by
  rw [toList_quoteText, List.cons_append, List.append_assoc, List.singleton_append,
    Settings.literalAt?, if_pos rfl, Formula.doubled, String.toList_ofList,
    Formula.closeQuote_doubled apart]
  simp

/-- A quoted name starts with a quote of its own. -/
theorem literalAt?_quoteName (differ : s.nameQuote ≠ s.textQuote) :
    s.literalAt? ((Dialect.quoteName s name).toList ++ tail) = none := by
  rw [toList_quoteName, List.cons_append, Settings.literalAt?, if_neg differ]

theorem doubled_of_notMem {quote : Char} (free : quote ∉ text.toList) :
    Formula.doubled quote text = text := by
  have each : ∀ c ∈ text.toList, (if c = quote then [quote, quote] else [c]) = [c] := by
    intro c mem
    refine if_neg ?_
    rintro rfl
    exact free mem
  rw [Formula.doubled, List.flatMap_congr each, List.flatMap_singleton', String.ofList_toList]

/-- With one quote for both, a name without that quote is written as a text is. -/
theorem quoteName_eq_quoteText (same : s.nameQuote = s.textQuote)
    (free : s.nameQuote ∉ name.toList) : Dialect.quoteName s name = Dialect.quoteText s name := by
  rw [Dialect.quoteName, Dialect.quoteText, ← same, doubled_of_notMem free]

end

theorem Dialect.checkName_eq_ok {d : Dialect} {name checked : String} :
    d.checkName name = .ok checked ↔ d.settings.nameQuote ∉ name.toList ∧ checked = name := by
  unfold checkName
  split <;> simp_all [eq_comm]

theorem Dialect.quotedName_eq_ok {d : Dialect} {name written : String} :
    d.quotedName name = .ok written ↔
      d.settings.nameQuote ∉ name.toList ∧ written = quoteName d.settings name := by
  unfold quotedName
  rw [bind_eq_ok]
  simp only [checkName_eq_ok, Except.ok.injEq]
  constructor
  · rintro ⟨_, ⟨free, rfl⟩, rfl⟩
    exact ⟨free, rfl⟩
  · rintro ⟨free, rfl⟩
    exact ⟨name, ⟨free, rfl⟩, rfl⟩

namespace Config

variable {path source : String} {c : Config} {d : Dialect}

/-! ## The quotes of a configuration -/

/-- One quote is given as the default of the other one, which is not given. -/
def Collides (c : Config) : Prop :=
  c.nameQuote = some Settings.default.textQuote ∧ c.textQuote = none ∨
    c.nameQuote = none ∧ c.textQuote = some Settings.default.nameQuote

instance : DecidablePred Collides := fun _ =>
  inferInstanceAs (Decidable (_ ∧ _ ∨ _ ∧ _))

/-- A configuration is accepted unless both quotes are given and equal. -/
theorem ofYamlAt_eq_ok : ofYamlAt path source = .ok c ↔
    (Yaml.read? source).bind ofNode? = some c ∧
      (c.nameQuote ≠ none → c.nameQuote ≠ c.textQuote) := by
  unfold ofYamlAt
  cases (Yaml.read? source).bind ofNode? with
  | none => simp
  | some read =>
    dsimp only
    split
    · rename_i equal
      refine iff_of_false nofun ?_
      rintro ⟨⟨⟩, differ⟩
      exact differ (Option.isSome_iff_ne_none.1 equal.1) equal.2
    · rename_i fine
      rw [Except.ok.injEq, Option.some.injEq]
      refine ⟨?_, And.left⟩
      rintro rfl
      exact ⟨rfl, fun given equal => fine ⟨Option.isSome_iff_ne_none.2 given, equal⟩⟩

/-- A dialect is built from the settings of the configuration and the qualifiers of its base. -/
theorem build_eq_ok : c.build = .ok d ↔ ∃ b, Base.ofName? c.dialect = some b ∧
    d = .withSettings b { c.settings with qualifiers := b.qualifiers } := by
  unfold build Dialect.named
  cases Base.ofName? c.dialect with
  | none => simp
  | some b => simp [eq_comm]

/-- The quotes that are used: the defaults where none are given. Given quotes differ. -/
theorem settings_quotes_iff (given : c.nameQuote ≠ none → c.nameQuote ≠ c.textQuote) :
    c.settings.nameQuote ≠ c.settings.textQuote ↔ ¬c.Collides := by
  have defaults : Settings.default.nameQuote ≠ Settings.default.textQuote := by decide
  unfold settings Collides
  cases name : c.nameQuote with
  | none =>
    cases text : c.textQuote with
    | none => simpa using defaults
    | some t => simp [eq_comm]
  | some n =>
    cases text : c.textQuote with
    | none => simp
    | some t => simpa [name, text] using given

/-- The quotes of a dialect that is built from an accepted configuration differ just if neither
quote is given as the default of the other one while that is not given. Just then there is no
text to be read where a quoted name stands; else every name that can be quoted is written as the
text of the same content. -/
theorem quotes_differ_iff (accepted : ofYaml source = .ok c) (built : c.build = .ok d) :
    (d.settings.nameQuote ≠ d.settings.textQuote ↔ ¬c.Collides) ∧
    ((∀ name tail,
        d.settings.literalAt? ((Dialect.quoteName d.settings name).toList ++ tail) = none) ↔
      ¬c.Collides) ∧
    (c.Collides → ∀ name written, d.quotedName name = .ok written →
      written = Dialect.quoteText d.settings name) := by
  obtain ⟨-, given⟩ := ofYamlAt_eq_ok.1 accepted
  obtain ⟨b, -, rfl⟩ := build_eq_ok.1 built
  have differ := settings_quotes_iff given
  have same : c.Collides → c.settings.nameQuote = c.settings.textQuote := fun collides =>
    not_not.1 (differ.not.2 (not_not.2 collides))
  refine ⟨differ, ⟨fun unread collides => ?_, fun free name tail => ?_⟩, fun collides => ?_⟩
  · -- the empty name is written as the empty text is
    have read := @literalAt?_quoteText c.settings "" [] (by simp)
    rw [← quoteName_eq_quoteText (same collides) (by simp)] at read
    exact Option.some_ne_none _ (read.symm.trans (unread "" []))
  · exact literalAt?_quoteName (differ.2 free)
  · intro name written quoted
    obtain ⟨free, rfl⟩ := Dialect.quotedName_eq_ok.1 quoted
    exact quoteName_eq_quoteText (same collides) free

/-- The two default quotes, each given for the other use. -/
theorem quotes_differ_iff_exchanged :
    let source := "identifier_quote: \"'\"\nstring_quote: '\"'\n"
    let c : Config := ⟨"duckdb", some '\'', some '"', .empty, none⟩
    let d := Dialect.withSettings .duckdb { c.settings with qualifiers := ["schema"] }
    ofYaml source = .ok c ∧ c.build = .ok d ∧
      (d.settings.nameQuote ≠ d.settings.textQuote ↔ ¬c.Collides) ∧
      ((∀ name tail,
          d.settings.literalAt? ((Dialect.quoteName d.settings name).toList ++ tail) = none) ↔
        ¬c.Collides) ∧
      (c.Collides → ∀ name written, d.quotedName name = .ok written →
        written = Dialect.quoteText d.settings name) := by
  intro source c d
  have tokens : Yaml.tokens? source = some [.blockMap,
      .key, .scalar "identifier_quote" .plain, .value, .scalar "'" .quoted,
      .key, .scalar "string_quote" .plain, .value, .scalar "\"" .quoted, .blockEnd, .textEnd] :=
    Yaml.tokens?_of_run
      [.scalar "identifier_quote" .plain, .value, .scalar "'" .quoted,
        .scalar "string_quote" .plain, .value, .scalar "\"" .quoted, .blockEnd, .textEnd]
      [(3, [.key]), (0, [.blockMap]), (0, [.key])] (by decide +kernel) (by decide +kernel)
      (by simp [List.mergeSort, List.MergeSort.Internal.splitInTwo, Yaml.merge])
  have accepted : ofYaml source = .ok c := by
    unfold ofYaml ofYamlAt Yaml.read? Yaml.readTree?
    rw [tokens]
    decide +kernel
  have built : c.build = .ok d := build_eq_ok.2 ⟨.duckdb, by decide +kernel, rfl⟩
  exact ⟨accepted, built, quotes_differ_iff accepted built⟩

/-- A configuration that gives the default quote of texts for names is accepted, and a name is
written as a text is. -/
theorem name_quote_meets_default :
    let c : Config := ⟨"duckdb", some '\'', none, .empty, none⟩
    ∃ d, ofYaml "identifier_quote: \"'\"" = .ok c ∧ c.build = .ok d ∧
      d.settings.nameQuote = d.settings.textQuote ∧
      d.quotedName "x" = .ok (Dialect.quoteText d.settings "x") := by
  have tokens : Yaml.tokens? "identifier_quote: \"'\"" = some [.blockMap,
      .key, .scalar "identifier_quote" .plain, .value, .scalar "'" .quoted, .blockEnd, .textEnd] :=
    Yaml.tokens?_of_run
      [.scalar "identifier_quote" .plain, .value, .scalar "'" .quoted, .blockEnd, .textEnd]
      [(0, [.blockMap]), (0, [.key])] (by decide +kernel) (by decide +kernel)
      (by simp [List.mergeSort, Yaml.merge])
  refine ⟨_, ?_, build_eq_ok.2 ⟨.duckdb, by decide +kernel, rfl⟩, rfl, by decide +kernel⟩
  unfold ofYaml ofYamlAt Yaml.read? Yaml.readTree?
  rw [tokens]
  decide +kernel

end Config

end Sql

end TableFlow
