import TableFlow.Proofs.Formula.Reading

/-!
# Readings in two scopes

The parser looks at its scope only to resolve a name. So what the steps of a reading keep is said
once for two readings of the same tokens side by side (`Kept`): if both scopes resolve alike the
names that may come, the two readings come to the same formula or to the same error, and a
property that passes from the parts of a formula to the whole holds of it (`Kept.parse`). The
parser's six functions call one another with one step less, so the proof is by induction on the
steps, with a lemma for each of them. With one scope on both sides this is a rule for a single
reading.
-/

namespace TableFlow.Formula

/-- Two computations come to the same result, which is `post`, or to the same error. -/
def Tandem {α : Type} (post : α → Prop) (x y : Except Error α) : Prop :=
  x = y ∧ Ends x post fun _ => True

namespace Tandem

variable {α β : Type} {x y : Except Error α} {post : β → Prop} {mid : α → Prop}

theorem bind {f g : α → Except Error β} (h : Tandem mid x y)
    (next : ∀ a, mid a → Tandem post (f a) (g a)) : Tandem post (x >>= f) (y >>= g) := by
  obtain ⟨rfl, ends⟩ := h
  cases x with
  | ok a => exact next a ends
  | error e => exact ⟨rfl, trivial⟩

theorem ok {a : α} (h : mid a) : Tandem mid (.ok a) (.ok a) := ⟨rfl, h⟩

theorem failAt {ts : Tokens} {fault : Token → SyntaxFault} :
    Tandem mid (failAt ts fault) (failAt ts fault) := by
  cases ts <;> exact ⟨rfl, trivial⟩

end Tandem

theorem operatorAt?_name {l : Level} {ts : Tokens} {s : Symbol} (h : operatorAt? l ts = some s) :
    s.text ∈ operatorNames := by
  have level := (Option.filter_eq_some_iff.1 h).2
  cases s <;> first | decide | simp [Symbol.level?] at level

/-- What two readings keep: `P` of the formulas that they read, `W` of the tokens that they leave.
Both scopes resolve alike the names among tokens that are `W`. -/
structure Kept (here there : Scope) (P : Formula → Prop) (W : Tokens → Prop) : Prop where
  tail : ∀ {ts}, W ts → W ts.tail
  constant : ∀ {v}, P (.constant v)
  resolved : ∀ {ts name}, W ts → peek ts = .word name ∨ peek ts = .name name →
    Tandem P (here.resolve name) (there.resolve name)
  binary : ∀ {name a b}, name ∈ operatorNames → P a → P b → P (binary name a b)
  not : ∀ {e}, P e → P (call "not" [e])
  call : ∀ {ts name args}, W ts → peek ts = .word name → (∀ a ∈ args, P a) → P (call name args)

/-- What the parser's functions give in both scopes with some number of steps. -/
structure KeptWith (here there : Scope) (P : Formula → Prop) (W : Tokens → Prop) (n : Nat) :
    Prop where
  readAt : ∀ l ts, W ts → Tandem (fun r => P r.1 ∧ W r.2) (readAt here n l ts) (readAt there n l ts)
  operators : ∀ l e ts, P e → W ts →
    Tandem (fun r => P r.1 ∧ W r.2) (readOperators here n l e ts) (readOperators there n l e ts)
  methods : ∀ e ts, P e → W ts →
    Tandem (fun r => P r.1 ∧ W r.2) (readMethods here n e ts) (readMethods there n e ts)
  arguments : ∀ ts, W ts →
    Tandem (fun r => (∀ e ∈ r.1, P e) ∧ W r.2) (readArguments here n ts) (readArguments there n ts)
  more : ∀ ts, W ts →
    Tandem (fun r => (∀ e ∈ r.1, P e) ∧ W r.2) (readMoreArguments here n ts)
      (readMoreArguments there n ts)
  primary : ∀ ts, W ts →
    Tandem (fun r => P r.1 ∧ W r.2) (readPrimary here n ts) (readPrimary there n ts)

variable {here there : Scope} {P : Formula → Prop} {W : Tokens → Prop} {n : Nat} {ts : Tokens}

theorem KeptWith.zero : KeptWith here there P W 0 where
  readAt _ _ _ := by rw [Formula.readAt, Formula.readAt]; exact .failAt
  operators _ _ _ _ _ := by rw [readOperators, readOperators]; exact .failAt
  methods _ _ _ _ := by rw [readMethods, readMethods]; exact .failAt
  arguments _ _ := by rw [readArguments, readArguments]; exact .failAt
  more _ _ := by rw [readMoreArguments, readMoreArguments]; exact .failAt
  primary _ _ := by rw [readPrimary, readPrimary]; exact .failAt

namespace Kept

theorem negate (kept : Kept here there P W) {e : Formula} (h : P e) : P e.negate := by
  have minus : "-" ∈ operatorNames := by decide
  unfold Formula.negate
  split
  · split
    · exact kept.constant
    · exact kept.binary minus kept.constant kept.constant
  · exact kept.constant
  · exact kept.binary minus kept.constant h

theorem expect (kept : Kept here there P W) {wanted : Token} (h : W ts) :
    Tandem W (expect wanted ts) (expect wanted ts) := by
  unfold Formula.expect
  split
  · exact .ok (kept.tail h)
  · exact .failAt

theorem readAt_succ (kept : Kept here there P W) (below : KeptWith here there P W n) (l : Level)
    (h : W ts) :
    Tandem (fun r => P r.1 ∧ W r.2) (readAt here (n + 1) l ts) (readAt there (n + 1) l ts) := by
  have operators : ∀ l, l ≠ .not ∧ l ≠ .sign ∧ l ≠ .call →
      Tandem (fun r => P r.1 ∧ W r.2) (readAt here (n + 1) l ts) (readAt there (n + 1) l ts) := by
    intro l inner
    rw [readAt_operators inner, readAt_operators inner]
    refine (below.readAt _ ts h).bind ?_
    rintro ⟨e, rest⟩ ⟨read, left⟩
    exact below.operators l e rest read left
  cases l with
  | not =>
    rw [readAt, readAt]
    split
    · refine (below.readAt _ _ (kept.tail h)).bind ?_
      rintro ⟨e, rest⟩ ⟨read, left⟩
      exact .ok ⟨kept.not read, left⟩
    · exact below.readAt _ ts h
  | sign =>
    rw [readAt, readAt]
    split
    · split
      · exact .ok ⟨kept.constant, kept.tail (kept.tail h)⟩
      · refine (below.readAt _ _ (kept.tail h)).bind ?_
        rintro ⟨e, rest⟩ ⟨read, left⟩
        exact .ok ⟨kept.negate read, left⟩
    · exact below.readAt _ _ (kept.tail h)
    · exact below.readAt _ ts h
  | call =>
    rw [readAt, readAt]
    refine (below.primary ts h).bind ?_
    rintro ⟨e, rest⟩ ⟨read, left⟩
    exact below.methods e rest read left
  | or => exact operators .or (by decide)
  | and => exact operators .and (by decide)
  | comparison => exact operators .comparison (by decide)
  | sum => exact operators .sum (by decide)
  | product => exact operators .product (by decide)

theorem operators_succ (kept : Kept here there P W) (below : KeptWith here there P W n) (l : Level)
    {e : Formula} (read : P e) (h : W ts) :
    Tandem (fun r => P r.1 ∧ W r.2) (readOperators here (n + 1) l e ts)
      (readOperators there (n + 1) l e ts) := by
  rw [readOperators, readOperators]
  split
  · rename_i s found
    refine (below.readAt _ _ (kept.tail h)).bind ?_
    rintro ⟨right, rest⟩ ⟨read', left⟩
    exact below.operators _ _ _ (kept.binary (operatorAt?_name found) read read') left
  · exact .ok ⟨read, h⟩

theorem methods_succ (kept : Kept here there P W) (below : KeptWith here there P W n) {e : Formula}
    (read : P e) (h : W ts) :
    Tandem (fun r => P r.1 ∧ W r.2) (readMethods here (n + 1) e ts)
      (readMethods there (n + 1) e ts) := by
  rw [readMethods, readMethods]
  split
  · split
    · rename_i name word
      refine (kept.expect (kept.tail (kept.tail h))).bind fun rest left => ?_
      refine (below.arguments rest left).bind ?_
      rintro ⟨args, rest⟩ ⟨each, left⟩
      refine below.methods _ _ (kept.call (kept.tail h) word ?_) left
      simpa [read] using each
    · exact .failAt
  · exact .ok ⟨read, h⟩

theorem arguments_succ (kept : Kept here there P W) (below : KeptWith here there P W n) (h : W ts) :
    Tandem (fun r => (∀ e ∈ r.1, P e) ∧ W r.2) (readArguments here (n + 1) ts)
      (readArguments there (n + 1) ts) := by
  rw [readArguments, readArguments]
  split
  · exact .ok ⟨by simp, kept.tail h⟩
  · exact below.more ts h

theorem more_succ (kept : Kept here there P W) (below : KeptWith here there P W n) (h : W ts) :
    Tandem (fun r => (∀ e ∈ r.1, P e) ∧ W r.2) (readMoreArguments here (n + 1) ts)
      (readMoreArguments there (n + 1) ts) := by
  rw [readMoreArguments, readMoreArguments]
  refine (below.readAt _ ts h).bind ?_
  rintro ⟨e, rest⟩ ⟨read, left⟩
  dsimp only
  split
  · refine (below.more _ (kept.tail left)).bind ?_
    rintro ⟨es, rest⟩ ⟨each, left⟩
    exact .ok ⟨by simpa [read] using each, left⟩
  · exact .ok ⟨by simpa using read, kept.tail left⟩
  · exact .failAt

theorem primary_succ (kept : Kept here there P W) (below : KeptWith here there P W n) (h : W ts) :
    Tandem (fun r => P r.1 ∧ W r.2) (readPrimary here (n + 1) ts)
      (readPrimary there (n + 1) ts) := by
  have resolved : ∀ name, peek ts = .word name ∨ peek ts = .name name →
      Tandem (fun r => P r.1 ∧ W r.2)
        (do let e ← here.resolve name; .ok (e, ts.tail))
        (do let e ← there.resolve name; .ok (e, ts.tail)) := fun name first =>
    (kept.resolved h first).bind fun e read => .ok ⟨read, kept.tail h⟩
  rw [readPrimary, readPrimary]
  split
  · exact .ok ⟨kept.constant, kept.tail h⟩
  · exact .ok ⟨kept.constant, kept.tail h⟩
  · exact .ok ⟨kept.constant, kept.tail h⟩
  · refine (below.readAt _ _ (kept.tail h)).bind ?_
    rintro ⟨e, rest⟩ ⟨read, left⟩
    exact (kept.expect left).bind fun rest left => .ok ⟨read, left⟩
  · rename_i name first
    exact resolved name (.inr first)
  · rename_i name first
    split
    · refine (below.arguments _ (kept.tail (kept.tail h))).bind ?_
      rintro ⟨args, rest⟩ ⟨each, left⟩
      exact .ok ⟨kept.call h first each, left⟩
    · split
      · exact .ok ⟨kept.constant, kept.tail h⟩
      · exact resolved name (.inl first)
  · exact .failAt

theorem all (kept : Kept here there P W) : ∀ n, KeptWith here there P W n
  | 0 => .zero
  | n + 1 =>
    have below := kept.all n
    { readAt := fun l _ h => kept.readAt_succ below l h
      operators := fun l _ _ read h => kept.operators_succ below l read h
      methods := fun _ _ read h => kept.methods_succ below read h
      arguments := fun _ h => kept.arguments_succ below h
      more := fun _ h => kept.more_succ below h
      primary := fun _ h => kept.primary_succ below h }

/-- Both scopes give a text the same formula, which has the property, or the same error. -/
theorem parse (kept : Kept here there P W) {source : String}
    (scanned : ∀ located, scan source = .ok located → W located) :
    Tandem P (parse source here) (parse source there) := by
  have cut : Tandem W (scan source) (scan source) := by
    refine ⟨rfl, ?_⟩
    cases result : scan source with
    | ok located => exact scanned located result
    | error e => trivial
  refine cut.bind fun located h => ?_
  refine ((kept.all _).readAt .or located h).bind ?_
  rintro ⟨e, rest⟩ ⟨read, -⟩
  dsimp only
  split
  · exact .ok read
  · exact .failAt

end Kept

end TableFlow.Formula
