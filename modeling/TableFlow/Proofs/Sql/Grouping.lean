import TableFlow.Proofs.Sql.Items
import TableFlow.Proofs.Sql.Spelling

/-!
# How SQL groups the text of a formula

The text of an operation in an operand stands in parentheses, and so does a test with `IS NULL`,
but `NOT` with its argument does not. So an operator that binds tighter than `NOT` takes from a
`NOT` on its left only the argument (`Term.regroup`): the text of a formula is grouped as the
formula is just if no `NOT` stands there (`text_groups`).
-/

namespace TableFlow.Sql

variable {t a b : Term} {rest more : List Token} {fuel least : Nat}

/-! ## What the reader makes of a term -/

def level (op : String) : Nat := ((operator? (operatorToken op)).map (·.1)).getD 0

theorem operator?_token {op : String} (known : op ∈ operators) :
    operator? (operatorToken op) = some (level op, op) := by
  simp only [operators, List.mem_cons, List.not_mem_nil, or_false] at known
  rcases known with rfl | rfl | rfl | rfl | rfl | rfl | rfl | rfl | rfl | rfl | rfl | rfl | rfl <;>
    rfl

def plainTree : String → Tree := ofLiteral (.negative ∘ .number) .number .literal

/-- A step that goes on after an operand. If the operand is a bare `NOT`, the step is taken
behind the `NOT`. -/
def onLeft (bare : Bool) (step : Tree → Tree) (operand : Tree) : Tree :=
  match bare, operand with
  | true, .not a => .not (step a)
  | _, a => step a

/-- A call, unless it is of `NOT` with other than one argument. -/
def ofCall (function : String) (args : List Tree) : Option Tree :=
  if function = "NOT" then
    match args with
    | [a] => some (.not a)
    | _ => none
  else some (.call (folded function) args)

namespace Term

mutual

/-- How the text of a term is grouped by the reader. -/
def regroup : Term → Option Tree
  | plain s => some (plainTree s)
  | name s => some (.name s)
  | text s => some (.text s)
  | double s => some (.double (.text s))
  | operation _ op a b =>
    (regroup a).bind fun left => (regroup b).map fun right =>
      onLeft (a.isNot && notLevel ≤ level op) (.operation op · right) left
  | call function args => (regroupAll args).bind (ofCall function)
  | isNull a => (regroup a).map (onLeft a.isNot .isNull)
  | choice c a b =>
    (regroup c).bind fun c => (regroup a).bind fun a => (regroup b).map (.choice c a)

def regroupAll : List Term → Option (List Tree)
  | [] => some []
  | t :: rest => (regroup t).bind fun first => (regroupAll rest).map (first :: ·)

end

end Term

/-! ## The ends of expressions -/

/-- No operator that binds at least as tight as `least` comes next. -/
def Stops (least : Nat) : List Token → Prop
  | [] => True
  | token :: _ => (∀ level op, operator? token = some (level, op) → level < least) ∧
      (token = .word "IS" → testLevel < least)

theorem Stops.mono {more : Nat} (h : Stops least rest) (le : least ≤ more) : Stops more rest := by
  cases rest with
  | nil => exact trivial
  | cons token rest =>
    exact ⟨fun level op known => Nat.lt_of_lt_of_le (h.1 level op known) le,
      fun test => Nat.lt_of_lt_of_le (h.2 test) le⟩

theorem Stops.of_none {token : Token} (none : operator? token = none) (plain : token ≠ .word "IS") :
    Stops least (token :: rest) :=
  ⟨fun level op known => absurd known (by simp [none]), fun test => absurd test plain⟩

theorem stops_close : Stops least (.symbol ")" :: rest) := .of_none rfl (by decide)

theorem stops_comma : Stops least (.symbol "," :: rest) := .of_none rfl (by decide)

theorem stops_word {s : String} (h : s ∈ ["THEN", "ELSE", "END", "AS"]) :
    Stops least (.word s :: rest) := by
  simp only [List.mem_cons, List.not_mem_nil, or_false] at h
  rcases h with rfl | rfl | rfl | rfl <;> exact .of_none rfl (by decide)

theorem stops_operator {op : String} (known : op ∈ operators) (loose : level op < least) :
    Stops least (operatorToken op :: rest) := by
  refine ⟨fun l o same => ?_, fun test => ?_⟩
  · rw [operator?_token known] at same
    cases same
    exact loose
  · have := operator?_token known
    rw [test] at this
    cases this

theorem readOn_stop {left : Tree} (stop : Stops least rest) :
    readOn (fuel + 1) least left rest = some (left, rest) := by
  cases rest with
  | nil => rfl
  | cons token rest =>
    rw [readOn]
    split
    · rename_i l op known
      rw [if_neg (Nat.not_le.2 (stop.1 l op known))]
    · rw [if_neg fun test => Nat.not_le.2 (stop.2 test.1) test.2]

/-! ## Rules of the reader -/

section
variable {tokens : List Token} {x : Option Tree}

/-- An operand in front of what stops. -/
theorem readAt_first (first : readFirst fuel tokens = x.map (·, rest)) (stop : Stops least rest) :
    readAt (fuel + 1) least tokens = x.map (·, rest) := by
  rw [readAt, first]
  cases x with
  | none => rfl
  | some a =>
    cases fuel with
    | zero => cases first
    | succ fuel => exact readOn_stop stop

theorem expect_head {token : Token} : expect token (token :: rest) = some rest := if_pos rfl

theorem readFirst_open : readFirst (fuel + 1) (.symbol "(" :: tokens) =
    (readAt fuel 0 tokens).bind fun read => (expect (.symbol ")") read.2).map (read.1, ·) := by
  rw [readFirst.eq_def]
  dsimp only
  rw [if_pos rfl]
  cases readAt fuel 0 tokens with
  | none => rfl
  | some read => cases same : expect (.symbol ")") read.2 <;> simp [same]

theorem readFirst_group
    (inside : readAt fuel 0 (tokens ++ .symbol ")" :: rest) = x.map (·, .symbol ")" :: rest)) :
    readFirst (fuel + 1) (.symbol "(" :: (tokens ++ .symbol ")" :: rest)) = x.map (·, rest) := by
  rw [readFirst_open, inside]
  cases x with
  | none => rfl
  | some a => simp [expect_head]

theorem readAt_close : readAt fuel least (.symbol ")" :: rest) = none := by
  rcases fuel with _ | _ | fuel <;> rfl

theorem readFirst_not : readFirst (fuel + 1) (.word "NOT" :: tokens) =
    (readAt fuel notLevel tokens).map fun read => (.not read.1, read.2) := by
  rw [readFirst.eq_def]
  dsimp only
  rw [if_neg (by decide), if_pos rfl]
  cases readAt fuel notLevel tokens <;> rfl

theorem readFirst_call {w : String} {args : Option (List Tree)} (free : w ∉ reserved)
    (inside : readArguments fuel tokens = args.map (·, rest)) :
    readFirst (fuel + 1) (.word w :: .symbol "(" :: tokens) =
      args.map fun args => (.call w args, rest) := by
  have apart : w ∉ literals ∧ w ≠ "NOT" ∧ w ≠ "CASE" ∧ w ≠ "CAST" := by
    simp only [reserved, literals, List.mem_cons, List.not_mem_nil, or_false, not_or] at free ⊢
    tauto
  rw [readFirst.eq_def]
  dsimp only
  rw [if_neg (by simpa using apart.1), if_neg apart.2.1, if_neg apart.2.2.1, if_neg apart.2.2.2,
    if_neg (by simpa using free)]
  split
  · rename_i rest' same
    cases same
    rw [inside]
    cases args <;> rfl
  · rename_i other
    exact absurd rfl (other tokens)

theorem readFirst_double {s : String} :
    readFirst (fuel + 3) (.word "CAST" :: .symbol "(" :: .text s :: .word "AS" :: .word "DOUBLE" ::
      .word "PRECISION" :: .symbol ")" :: rest) = some (.double (.text s), rest) := by
  have inside : ∀ rest, readAt (fuel + 2) 0 (.text s :: .word "AS" :: rest) =
      (some (.text s)).map (·, .word "AS" :: rest) := fun rest =>
    readAt_first rfl (stops_word (by simp))
  rw [readFirst.eq_def]
  dsimp only
  rw [if_neg (by decide), if_neg (by decide), if_neg (by decide), if_pos rfl]
  simp [expect_head, inside]

theorem readFirst_choice {c a b : List Token} {x y z : Option Tree}
    (condition : ∀ rest, readAt fuel 0 (c ++ .word "THEN" :: rest) =
      x.map (·, .word "THEN" :: rest))
    (whenTrue : ∀ rest, readAt fuel 0 (a ++ .word "ELSE" :: rest) =
      y.map (·, .word "ELSE" :: rest))
    (whenFalse : ∀ rest, readAt fuel 0 (b ++ .word "END" :: rest) =
      z.map (·, .word "END" :: rest)) :
    readFirst (fuel + 1) (.word "CASE" :: .word "WHEN" :: (c ++ .word "THEN" ::
      (a ++ .word "ELSE" :: (b ++ .word "END" :: rest)))) =
      (x.bind fun c => y.bind fun a => z.map (.choice c a)).map (·, rest) := by
  rw [readFirst.eq_def]
  dsimp only
  rw [if_neg (by decide), if_neg (by decide), if_pos rfl, expect_head]
  simp only [Option.bind_eq_bind, Option.bind_some, condition]
  cases x with
  | none => rfl
  | some c =>
    simp only [Option.map_some, Option.bind_some, expect_head, whenTrue]
    cases y with
    | none => rfl
    | some a =>
      simp only [Option.map_some, Option.bind_some, expect_head, whenFalse]
      cases z with
      | none => rfl
      | some b => simp [expect_head]

end

/-! ## Terms -/

namespace Term

structure Reads (t : Term) : Prop where
  /-- On its own, whatever follows. -/
  first : t.Grouped → t.isNot = false → ∀ fuel rest, 2 * t.tokens.length ≤ fuel →
    readFirst fuel (t.tokens ++ rest) = t.regroup.map (·, rest)
  /-- A `NOT` takes its argument and what binds tighter behind it. -/
  bare : t.isNot = true → ∃ x : Option Tree, t.regroup = x.map .not ∧
    ∀ fuel rest, 2 * t.tokens.length ≤ fuel + 2 →
      readFirst (fuel + 2) (t.tokens ++ rest) =
        x.bind fun a => (readOn fuel notLevel a rest).map fun read => (.not read.1, read.2)
  /-- As a whole, up to where any expression ends. -/
  whole : ∀ fuel rest, 2 * t.tokens.length + 1 ≤ fuel → Stops 0 rest →
    readAt fuel 0 (t.tokens ++ rest) = t.regroup.map (·, rest)

theorem length_argumentTokens {args : List Term} : 0 < (argumentTokens args).length :=
  List.length_pos_of_ne_nil argumentTokens_ne_nil

/-- A bare `NOT` has at least three tokens. -/
theorem length_of_isNot (not : t.isNot = true) : 3 ≤ t.tokens.length := by
  cases t with
  | call function args =>
    have := @length_argumentTokens args
    simp only [tokens, List.length_cons]
    omega
  | _ => cases not

/-- A bare `NOT` in front of what stops behind it. -/
theorem readFirst_bare (not : t.isNot = true) {x : Option Tree} (same : t.regroup = x.map .not)
    (reads : ∀ fuel rest, 2 * t.tokens.length ≤ fuel + 2 →
      readFirst (fuel + 2) (t.tokens ++ rest) =
        x.bind fun a => (readOn fuel notLevel a rest).map fun read => (.not read.1, read.2))
    (stop : Stops notLevel rest) (enough : 2 * t.tokens.length ≤ fuel) :
    readFirst fuel (t.tokens ++ rest) = t.regroup.map (·, rest) := by
  have some := length_of_isNot not
  obtain ⟨f, rfl⟩ : ∃ f, fuel = f + 3 := ⟨fuel - 3, by omega⟩
  rw [reads (f + 1) rest enough, same]
  cases x with
  | none => rfl
  | some a => simp [readOn_stop stop]

namespace Reads

/-- A grouped term in front of what stops behind a `NOT`. -/
theorem before (h : t.Reads) (grouped : t.Grouped) (stop : Stops notLevel rest)
    (enough : 2 * t.tokens.length ≤ fuel) :
    readFirst fuel (t.tokens ++ rest) = t.regroup.map (·, rest) := by
  cases not : t.isNot with
  | false => exact h.first grouped not fuel rest enough
  | true =>
    obtain ⟨x, same, reads⟩ := h.bare not
    exact readFirst_bare not same reads stop enough

/-- A grouped term up to where any expression ends. -/
theorem operand (h : t.Reads) (grouped : t.Grouped) (stop : Stops 0 rest)
    (enough : 2 * t.tokens.length + 1 ≤ fuel) :
    readAt fuel least (t.tokens ++ rest) = t.regroup.map (·, rest) := by
  obtain ⟨f, rfl⟩ : ∃ f, fuel = f + 1 := ⟨fuel - 1, by omega⟩
  exact readAt_first (h.before grouped (stop.mono (Nat.zero_le _)) (by omega))
    (stop.mono (Nat.zero_le _))

/-- A grouped term in front of something that goes on after it: what goes on is put behind a
`NOT` if it binds tighter. -/
theorem continued (h : t.Reads) (grouped : t.Grouped) {go : Option (Tree → Tree)}
    {level need : Nat} (loose : Stops (level + 1) more) (stop : Stops 0 rest)
    (goes : ∀ fuel least x, need ≤ fuel → least ≤ level →
      readOn fuel least x more = go.map fun step => (step x, rest))
    (enough : 2 * t.tokens.length + need + 1 ≤ fuel) :
    readAt fuel 0 (t.tokens ++ more) =
      (t.regroup.bind fun x => go.map fun step => onLeft (t.isNot && notLevel ≤ level) step x).map
        (·, rest) := by
  cases not : t.isNot with
  | false =>
    obtain ⟨f, rfl⟩ : ∃ f, fuel = f + 1 := ⟨fuel - 1, by omega⟩
    rw [readAt, h.first grouped not f more (by omega)]
    cases t.regroup with
    | none => rfl
    | some x =>
      simp only [Option.map_some, Option.bind_eq_bind, Option.bind_some,
        goes f 0 x (by omega) (Nat.zero_le _)]
      cases go <;> rfl
  | true =>
    have some := length_of_isNot not
    obtain ⟨x, same, reads⟩ := h.bare not
    obtain ⟨f, rfl⟩ : ∃ f, fuel = f + 4 := ⟨fuel - 4, by omega⟩
    rw [readAt, reads (f + 1) more (by omega), same]
    cases x with
    | none => rfl
    | some a =>
      simp only [Option.bind_eq_bind, Option.bind_some, Option.map_some]
      -- the operand of the `NOT` is read at `notLevel`, so only what binds tighter is put behind it
      by_cases tight : notLevel ≤ level
      · rw [goes (f + 1) notLevel a (by omega) tight]
        cases go with
        | none => rfl
        | some step => simp [tight, onLeft, readOn_stop stop]
      · rw [readOn_stop (loose.mono (by omega))]
        simp only [Option.map_some, Option.bind_some,
          goes (f + 1 + 2) 0 (.not a) (by omega) (Nat.zero_le _)]
        cases go with
        | none => rfl
        | some step => simp [tight, onLeft]

end Reads

/-- What is grouped and no bare `NOT` is read as a whole if it is read on its own. -/
theorem reads_of_first (not : t.isNot = false)
    (first : ∀ fuel rest, 2 * t.tokens.length ≤ fuel →
      readFirst fuel (t.tokens ++ rest) = t.regroup.map (·, rest)) : t.Reads where
  first _ _ := first
  bare bare := by rw [not] at bare; cases bare
  whole fuel rest enough stop := by
    obtain ⟨f, rfl⟩ : ∃ f, fuel = f + 1 := ⟨fuel - 1, by omega⟩
    exact readAt_first (first f rest (by omega)) stop

theorem reads_operation {grouped : Bool} {op : String} (known : op ∈ operators) (ha : a.Reads)
    (groupeda : a.Grouped) (hb : b.Reads) (groupedb : b.Grouped) :
    (operation grouped op a b).Reads := by
  have open_whole : ∀ fuel rest, 2 * (a.tokens.length + b.tokens.length + 1) + 1 ≤ fuel →
      Stops 0 rest → readAt fuel 0 (a.tokens ++ (operatorToken op :: (b.tokens ++ rest))) =
        (regroup (.operation grouped op a b)).map (·, rest) := by
    intro fuel rest enough stop
    have goes : ∀ fuel least x, 2 * b.tokens.length + 2 ≤ fuel → least ≤ level op →
        readOn fuel least x (operatorToken op :: (b.tokens ++ rest)) =
          (b.regroup.map fun right => (.operation op · right)).map fun step => (step x, rest) := by
      intro fuel least x enough tight
      obtain ⟨f, rfl⟩ : ∃ f, fuel = f + 2 := ⟨fuel - 2, by omega⟩
      rw [readOn]
      simp only [operator?_token known, tight, if_true, hb.operand groupedb stop
        (show 2 * b.tokens.length + 1 ≤ f + 1 by omega)]
      cases b.regroup with
      | none => rfl
      | some right => exact readOn_stop (stop.mono (Nat.zero_le _))
    rw [ha.continued groupeda (stops_operator known (Nat.lt_succ_self _)) stop goes (by omega)]
    rw [regroup]
    cases a.regroup <;> cases b.regroup <;> rfl
  cases grouped with
  | false =>
    have bare : tokens (.operation false op a b) = a.tokens ++ operatorToken op :: b.tokens := by
      rw [tokens, if_neg (by decide)]
    refine ⟨fun grouped => ?_, fun not => ?_, fun fuel rest enough stop => ?_⟩
    · cases grouped
    · cases not
    · rw [bare, List.length_append, List.length_cons] at enough
      rw [bare, List.append_assoc, List.cons_append]
      exact open_whole fuel rest (by omega) stop
  | true =>
    refine reads_of_first rfl fun fuel rest enough => ?_
    rw [tokens, if_pos rfl] at *
    obtain ⟨f, rfl⟩ : ∃ f, fuel = f + 1 := ⟨fuel - 1, by simp at enough; omega⟩
    have inside := open_whole f (.symbol ")" :: rest) (by simp at enough; omega) stops_close
    have group : readFirst (f + 1)
        (.symbol "(" :: ((a.tokens ++ operatorToken op :: b.tokens) ++ .symbol ")" :: rest)) =
          (regroup (.operation true op a b)).map (·, rest) :=
      readFirst_group (by simpa using inside)
    simpa using group

theorem reads_isNull (ha : a.Reads) (groupeda : a.Grouped) : (isNull a).Reads := by
  refine reads_of_first rfl fun fuel rest enough => ?_
  simp only [tokens, List.length_cons, List.length_append, List.length_nil] at enough
  obtain ⟨f, rfl⟩ : ∃ f, fuel = f + 1 := ⟨fuel - 1, by omega⟩
  have loose : Stops (testLevel + 1) (.word "IS" :: .word "NULL" :: .symbol ")" :: rest) := by
    refine ⟨fun level op known => ?_, fun _ => Nat.lt_succ_self _⟩
    cases known
  have goes : ∀ fuel least x, 2 ≤ fuel → least ≤ testLevel →
      readOn fuel least x (.word "IS" :: .word "NULL" :: .symbol ")" :: rest) =
        (some Tree.isNull).map fun step => (step x, .symbol ")" :: rest) := by
    intro fuel least x enough tight
    obtain ⟨f, rfl⟩ : ∃ f, fuel = f + 2 := ⟨fuel - 2, by omega⟩
    have none : operator? (.word "IS") = none := rfl
    rw [readOn]
    simp only [none, tight, and_self, if_true, expect_head]
    exact readOn_stop stops_close
  have same : regroup (.isNull a) = a.regroup.bind fun x =>
      (some Tree.isNull).map fun step => onLeft (a.isNot && notLevel ≤ testLevel) step x := by
    rw [regroup]
    cases a.regroup <;> simp [notLevel, testLevel]
  have inside : readAt f 0 ((a.tokens ++ [.word "IS", .word "NULL"]) ++ .symbol ")" :: rest) =
      (regroup (.isNull a)).map (·, .symbol ")" :: rest) := by
    rw [same, List.append_assoc]
    exact ha.continued groupeda loose stops_close goes (by omega)
  rw [← readFirst_group inside]
  simp [tokens]

theorem reads_choice {c : Term} (hc : c.Reads) (ha : a.Reads) (hb : b.Reads) :
    (choice c a b).Reads := by
  refine reads_of_first rfl fun fuel rest enough => ?_
  simp only [tokens, List.length_cons, List.length_append, List.length_nil] at enough
  obtain ⟨f, rfl⟩ : ∃ f, fuel = f + 1 := ⟨fuel - 1, by omega⟩
  simp only [tokens, regroup, List.cons_append, List.append_assoc, List.nil_append]
  exact readFirst_choice (fun _ => hc.whole f _ (by omega) (stops_word (by simp)))
    (fun _ => ha.whole f _ (by omega) (stops_word (by simp)))
    (fun _ => hb.whole f _ (by omega) (stops_word (by simp)))

/-! ### Calls -/

theorem head_tokens (h : t.Readable) : ∃ token rest, t.tokens = token :: rest ∧
    token ≠ .symbol ")" := by
  induction h with
  | literal known => exact ⟨_, _, plainTokens_literal known, by simp⟩
  | number unsigned text =>
    obtain plain | negative := text
    · exact ⟨_, _, plainTokens_unsigned (plain ▸ unsigned), by simp⟩
    · exact ⟨_, _, plainTokens_negative negative, by simp⟩
  | @operation grouped op a b _ _ _ _ _ left _ =>
    cases grouped with
    | false =>
      obtain ⟨token, rest, same, other⟩ := left
      exact ⟨token, rest ++ operatorToken op :: b.tokens, by simp [tokens, same], other⟩
    | true => exact ⟨.symbol "(", _, rfl, by simp⟩
  | _ => exact ⟨_, _, rfl, by simp⟩

theorem stops_moreTokens {args : List Term} : Stops least (moreTokens args ++ rest) := by
  cases args with
  | nil => exact stops_close
  | cons a args => exact stops_comma

theorem readMore_tokens {args : List Term} (each : ∀ a ∈ args, a.Reads)
    (enough : 2 * (moreTokens args).length ≤ fuel) :
    readMore fuel (moreTokens args ++ rest) = (regroupAll args).map (·, rest) := by
  induction args generalizing fuel with
  | nil =>
    obtain ⟨f, rfl⟩ : ∃ f, fuel = f + 1 := ⟨fuel - 1, by simp [moreTokens] at enough; omega⟩
    rfl
  | cons a args ih =>
    simp only [moreTokens, List.length_cons, List.length_append] at enough
    obtain ⟨f, rfl⟩ : ∃ f, fuel = f + 1 := ⟨fuel - 1, by omega⟩
    have first := (each a (List.mem_cons_self ..)).whole f (moreTokens args ++ rest)
      (by omega) stops_moreTokens
    have others : readMore f (moreTokens args ++ rest) = (regroupAll args).map (·, rest) :=
      ih (fun b mem => each b (List.mem_cons_of_mem _ mem)) (by omega)
    rw [moreTokens, List.cons_append, List.append_assoc, readMore.eq_def]
    simp only [first, regroupAll]
    cases a.regroup with
    | none => rfl
    | some x =>
      simp only [Option.map_some, Option.bind_eq_bind, Option.bind_some, others]
      cases regroupAll args <;> rfl

theorem readArguments_tokens {args : List Term} (each : ∀ a ∈ args, a.Readable ∧ a.Reads)
    (enough : 2 * (argumentTokens args).length ≤ fuel) :
    readArguments fuel (argumentTokens args ++ rest) = (regroupAll args).map (·, rest) := by
  cases args with
  | nil =>
    obtain ⟨f, rfl⟩ : ∃ f, fuel = f + 1 := ⟨fuel - 1, by simp [argumentTokens] at enough; omega⟩
    rfl
  | cons a args =>
    simp only [argumentTokens, List.length_append] at enough
    obtain ⟨readable, reads⟩ := each a (List.mem_cons_self ..)
    obtain ⟨token, tail, same, other⟩ := head_tokens readable
    have positive : 0 < a.tokens.length := by simp [same]
    have last : 0 < (moreTokens args).length := by cases args <;> simp [moreTokens]
    obtain ⟨f, rfl⟩ : ∃ f, fuel = f + 1 := ⟨fuel - 1, by omega⟩
    have first := reads.whole f (moreTokens args ++ rest) (by omega) stops_moreTokens
    have others : readMore f (moreTokens args ++ rest) = (regroupAll args).map (·, rest) :=
      readMore_tokens (fun b mem => (each b (List.mem_cons_of_mem _ mem)).2) (by omega)
    have step : readArguments (f + 1) (a.tokens ++ (moreTokens args ++ rest)) =
        (readAt f 0 (a.tokens ++ (moreTokens args ++ rest))).bind fun first =>
          (readMore f first.2).bind fun others => some (first.1 :: others.1, others.2) := by
      rw [same, readArguments.eq_def]
      dsimp only
      split
      · rename_i close
        cases close
        exact absurd rfl other
      · rfl
    rw [argumentTokens, List.append_assoc, step, first, regroupAll]
    cases a.regroup with
    | none => rfl
    | some x =>
      simp only [Option.map_some, Option.bind_some, others]
      cases regroupAll args <;> rfl

/-- What a call of `NOT` negates, if it has one argument. -/
def negated : List Term → Option Tree
  | [] => none
  | [a] => a.regroup
  | _ :: _ :: _ => none

theorem regroup_not {args : List Term} :
    regroup (.call "NOT" args) = (negated args).map .not := by
  rw [regroup]
  rcases args with _ | ⟨a, _ | ⟨b, args⟩⟩
  · rfl
  · rw [regroupAll, regroupAll, negated]
    cases a.regroup <;> rfl
  · rw [regroupAll, regroupAll, negated]
    cases a.regroup <;> cases b.regroup <;> cases regroupAll args <;> rfl

theorem regroup_of_isNot (not : t.isNot = true) : ∃ x : Option Tree, t.regroup = x.map .not := by
  cases t with
  | call function args =>
    rw [of_decide_eq_true not]
    exact ⟨_, regroup_not⟩
  | _ => cases not

/-- A `NOT` takes its argument and goes on behind it. -/
theorem readFirst_notCall {args : List Term} (each : ∀ a ∈ args, a.Reads)
    (enough : 2 * (argumentTokens args).length + 1 ≤ fuel) :
    readFirst (fuel + 2) (.word "NOT" :: .symbol "(" :: (argumentTokens args ++ rest)) =
      (negated args).bind fun a =>
        (readOn fuel notLevel a rest).map fun read => (.not read.1, read.2) := by
  obtain ⟨f, rfl⟩ : ∃ f, fuel = f + 1 := ⟨fuel - 1, by omega⟩
  rw [readFirst_not, readAt]
  rcases args with _ | ⟨a, _ | ⟨b, args⟩⟩
  · simp [argumentTokens, readFirst_open, readAt_close, negated]
  · simp only [argumentTokens, moreTokens, List.length_append, List.length_singleton] at enough
    have inside := (each a (List.mem_singleton.2 rfl)).whole f (.symbol ")" :: rest)
      (by omega) stops_close
    rw [argumentTokens, moreTokens, List.append_assoc, List.singleton_append,
      readFirst_group inside, negated]
    cases a.regroup <;> rfl
  · simp only [argumentTokens, moreTokens, List.length_append, List.length_cons] at enough
    have first := (each a (List.mem_cons_self ..)).whole f
      (moreTokens (b :: args) ++ rest) (by omega) stops_moreTokens
    have comma : expect (.symbol ")") (moreTokens (b :: args) ++ rest) = none := rfl
    rw [argumentTokens, List.append_assoc, readFirst_open, first, negated]
    cases a.regroup with
    | none => rfl
    | some x => simp [comma]

theorem reads_not {args : List Term} (each : ∀ a ∈ args, a.Reads) :
    (call "NOT" args).Reads := by
  have length : (tokens (.call "NOT" args)).length = (argumentTokens args).length + 2 := by
    simp [tokens]
  have reads : ∀ fuel rest, 2 * (tokens (.call "NOT" args)).length ≤ fuel + 2 →
      readFirst (fuel + 2) (tokens (.call "NOT" args) ++ rest) = (negated args).bind fun a =>
        (readOn fuel notLevel a rest).map fun read => (.not read.1, read.2) := by
    intro fuel rest enough
    have word : folded "NOT" = "NOT" := rfl
    rw [tokens, word, List.cons_append, List.cons_append]
    exact readFirst_notCall each (by omega)
  refine ⟨fun _ not => ?_, fun _ => ⟨_, regroup_not, reads⟩, fun fuel rest enough stop => ?_⟩
  · cases not
  · obtain ⟨f, rfl⟩ : ∃ f, fuel = f + 1 := ⟨fuel - 1, by omega⟩
    have first : readFirst f (tokens (.call "NOT" args) ++ rest) =
        (regroup (.call "NOT" args)).map (·, rest) :=
      readFirst_bare rfl regroup_not reads (stop.mono (Nat.zero_le _)) (by omega)
    exact readAt_first first stop

theorem reads_call {function : String} {args : List Term} (free : folded function ∉ reserved)
    (each : ∀ a ∈ args, a.Readable ∧ a.Reads) : (call function args).Reads := by
  have plain : function ≠ "NOT" := by
    rintro rfl
    exact free (by decide)
  refine reads_of_first (by simp [isNot, plain]) fun fuel rest enough => ?_
  simp only [tokens, List.length_cons] at enough
  obtain ⟨f, rfl⟩ : ∃ f, fuel = f + 1 := ⟨fuel - 1, by omega⟩
  have inside : readArguments f (argumentTokens args ++ rest) = (regroupAll args).map (·, rest) :=
    readArguments_tokens each (by omega)
  have same : regroup (.call function args) =
      (regroupAll args).map fun args => .call (folded function) args := by
    rw [regroup]
    cases regroupAll args <;> simp [ofCall, plain]
  rw [tokens, same, List.cons_append, List.cons_append, readFirst_call free inside]
  cases regroupAll args <;> rfl

theorem reads_plain {s : String} (h : Readable (.plain s)) : Reads (.plain s) := by
  refine reads_of_first rfl fun fuel rest enough => ?_
  rw [tokens, regroup] at *
  cases h with
  | literal known =>
    rw [plainTokens_literal known] at enough ⊢
    obtain ⟨f, rfl⟩ : ∃ f, fuel = f + 1 := ⟨fuel - 1, by simp at enough; omega⟩
    simp only [literals, List.mem_cons, List.not_mem_nil, or_false] at known
    rcases known with rfl | rfl | rfl <;> rfl
  | @number _ l unsigned text =>
    obtain plain | negative := text
    · subst plain
      rw [plainTokens_unsigned unsigned, plainTree, ofLiteral_unsigned unsigned] at *
      obtain ⟨f, rfl⟩ : ∃ f, fuel = f + 1 := ⟨fuel - 1, by simp at enough; omega⟩
      rfl
    · rw [plainTokens_negative negative, plainTree, ofLiteral_negative negative] at *
      obtain ⟨f, rfl⟩ : ∃ f, fuel = f + 2 := ⟨fuel - 2, by simp at enough; omega⟩
      rfl

/-- Every readable term is read as it is grouped. -/
theorem Readable.reads (h : t.Readable) : t.Reads := by
  induction h with
  | literal known => exact reads_plain (.literal known)
  | number unsigned text => exact reads_plain (.number unsigned text)
  | name =>
    refine reads_of_first rfl fun fuel rest enough => ?_
    obtain ⟨f, rfl⟩ : ∃ f, fuel = f + 1 := ⟨fuel - 1, by simp [tokens] at enough; omega⟩
    rfl
  | text =>
    refine reads_of_first rfl fun fuel rest enough => ?_
    obtain ⟨f, rfl⟩ : ∃ f, fuel = f + 1 := ⟨fuel - 1, by simp [tokens] at enough; omega⟩
    rfl
  | double =>
    refine reads_of_first rfl fun fuel rest enough => ?_
    obtain ⟨f, rfl⟩ : ∃ f, fuel = f + 3 := ⟨fuel - 3, by simp [tokens] at enough; omega⟩
    exact readFirst_double
  | operation known _ groupeda _ groupedb ha hb =>
    exact reads_operation known ha groupeda hb groupedb
  | @call function args _ kind readable _ each =>
    obtain rfl | free := kind
    · exact reads_not each
    · exact reads_call free fun a mem => ⟨readable a mem, each a mem⟩
  | isNull _ grouped ha => exact reads_isNull ha grouped
  | choice _ _ _ hc ha hb => exact reads_choice hc ha hb

/-- The text of a readable term is read as `regroup` says. -/
theorem read?_pieces {base : Base} (h : t.Readable) :
    read? (render (Dialect.ofBase base).settings t.pieces) = t.regroup := by
  have whole := h.reads.whole (2 * t.tokens.length + 1) [] (Nat.le_refl _) trivial
  rw [List.append_nil] at whole
  rw [read?, scan_pieces h, Option.bind_some, readTokens?, whole]
  cases t.regroup <;> rfl

end Term

end TableFlow.Sql
