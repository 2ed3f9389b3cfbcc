import TableFlow.Formula.Parse
import TableFlow.Proofs.Outcome

/-!
# Rules of reading

`Reads l k ts o rest` says what reading a formula of level `l` at `ts` comes to, given at
least `k` steps and those that the level takes itself: a formula and the tokens after it,
or no formula. There is one rule for each thing that the reader looks for. What is read at
one level is read at a looser one too, if no operator follows that the looser level would
take in (`Reads.climb`).
-/

namespace TableFlow.Formula

/-! ## Levels -/

/-- The steps from a level down to the first token. -/
def Level.height : Level → Nat
  | .or => 8
  | .and => 7
  | .not => 6
  | .comparison => 5
  | .sum => 4
  | .product => 3
  | .sign => 2
  | .call => 1

theorem Level.height_pos {l : Level} : 0 < l.height := by
  cases l <;> decide

theorem Level.height_le {l : Level} : l.height ≤ 8 := by
  cases l <;> decide

theorem Level.height_tighter {l : Level} (h : l ≠ .call) : l.height = l.tighter.height + 1 := by
  cases l <;> first | contradiction | rfl

theorem Level.eq_of_height {l m : Level} (h : l.height = m.height) : l = m := by
  cases l <;> cases m <;> first | rfl | simp [Level.height] at h

/-- The operators between operands are on levels of their own. -/
theorem Symbol.level_ne {s : Symbol} {l : Level} (h : s.level? = some l) :
    l ≠ .not ∧ l ≠ .sign ∧ l ≠ .call := by
  cases s <;> cases h <;> decide

theorem Symbol.level_height {s : Symbol} {l : Level} (h : s.level? = some l) :
    2 ≤ l.tighter.height := by
  cases s <;> cases h <;> decide

/-- What ends a formula of a level: no token that goes on with it. -/
structure Stops (l : Level) (token : Token) : Prop where
  dot : token ≠ .dot
  paren : token ≠ .leftParen
  looser : ∀ s m, token.symbol? = some s → s.level? = some m → l.height < m.height

theorem Stops.mono {l m : Level} {token : Token} (h : Stops m token)
    (le : l.height ≤ m.height) : Stops l token :=
  ⟨h.dot, h.paren, fun s n symbol level => Nat.lt_of_le_of_lt le (h.looser s n symbol level)⟩

theorem Stops.close {l : Level} : Stops l .rightParen := ⟨by simp, by simp, by simp [Token.symbol?]⟩

theorem Stops.comma {l : Level} : Stops l .comma := ⟨by simp, by simp, by simp [Token.symbol?]⟩

theorem Stops.eof {l : Level} : Stops l .eof := ⟨by simp, by simp, by simp [Token.symbol?]⟩

theorem Stops.operator {l m : Level} {token : Token} {s : Symbol} (symbol : token.symbol? = some s)
    (level : s.level? = some m) (lt : l.height < m.height) : Stops l token := by
  refine ⟨?_, ?_, fun t n symbol' level' => ?_⟩
  · rintro rfl
    cases symbol
  · rintro rfl
    cases symbol
  · rw [symbol] at symbol'
    cases symbol'
    rw [level] at level'
    cases level'
    exact lt

theorem Stops.operatorAt? {l : Level} {ts : Tokens} (h : Stops l (peek ts)) :
    operatorAt? l ts = none := by
  unfold Formula.operatorAt?
  rw [Option.filter_eq_none_iff]
  intro s symbol
  have := h.looser s l symbol
  simp only [decide_eq_true_eq]
  intro level
  exact absurd (this level) (Nat.lt_irrefl _)

/-! ## What reading comes to -/

/-- Something read and the tokens after it, or an error. -/
def Yields {α : Type} (x : Except Error (α × Tokens)) (o : Option α) (rest : Tokens) : Prop :=
  match o with
  | some a => x = .ok (a, rest)
  | none => ∃ e, x = .error e

namespace Yields

variable {α β : Type} {x : Except Error (α × Tokens)} {o : Option α} {mid rest : Tokens}

theorem bind {f : α × Tokens → Except Error (β × Tokens)} {g : α → Option β}
    (h : Yields x o mid) (next : ∀ a, o = some a → Yields (f (a, mid)) (g a) rest) :
    Yields (x >>= f) (o >>= g) rest := by
  cases o with
  | some a =>
    obtain rfl : x = .ok (a, mid) := h
    exact next a rfl
  | none =>
    obtain ⟨e, rfl⟩ : ∃ e, x = .error e := h
    exact ⟨e, rfl⟩

/-- A second step that changes nothing of what was read. -/
theorem bind_ok {f : α × Tokens → Except Error (α × Tokens)} (h : Yields x o mid)
    (next : ∀ a, f (a, mid) = .ok (a, rest)) : Yields (x >>= f) o rest := by
  have same : o = o >>= some := by cases o <;> rfl
  rw [same]
  exact h.bind fun a _ => next a

/-- A second step that fails whatever was read. -/
theorem bind_error {f : α × Tokens → Except Error (β × Tokens)} (h : Yields x o mid)
    (next : ∀ a, ∃ e, f (a, mid) = .error e) : Yields (x >>= f) none rest := by
  have same : (none : Option β) = o >>= fun _ => none := by cases o <;> rfl
  rw [same]
  exact h.bind fun a _ => next a

end Yields

/-- What reading a formula of a level comes to. -/
def Reads (scope : Scope) (l : Level) (k : Nat) (ts : Tokens) (o : Option Formula)
    (rest : Tokens) : Prop :=
  ∀ n, k + l.height ≤ n → Yields (readAt scope n l ts) o rest

def ReadsPrimary (scope : Scope) (k : Nat) (ts : Tokens) (o : Option Formula)
    (rest : Tokens) : Prop :=
  ∀ n, k ≤ n → Yields (readPrimary scope n ts) o rest

def ReadsArguments (scope : Scope) (k : Nat) (ts : Tokens) (o : Option (List Formula))
    (rest : Tokens) : Prop :=
  ∀ n, k ≤ n → Yields (readArguments scope n ts) o rest

def ReadsMore (scope : Scope) (k : Nat) (ts : Tokens) (o : Option (List Formula))
    (rest : Tokens) : Prop :=
  ∀ n, k ≤ n → Yields (readMoreArguments scope n ts) o rest

variable {scope : Scope} {l : Level} {k : Nat} {ts mid rest : Tokens} {o p : Option Formula}

attribute [local simp] readAt readOperators readMethods readArguments readMoreArguments readPrimary

theorem Reads.more {m : Nat} (h : Reads scope l k ts o rest) (le : k ≤ m) :
    Reads scope l m ts o rest :=
  fun n hn => h n (by omega)

theorem steps_succ {n m : Nat} (h : n < m) : ∃ i, m = i + 1 :=
  ⟨m - 1, by omega⟩

/-! ## From level to level -/

theorem readMethods_stop {n : Nat} {e : Formula} (h : peek ts ≠ .dot) :
    readMethods scope (n + 1) e ts = .ok (e, ts) := by
  simp [h]

theorem readOperators_stop {n : Nat} {e : Formula} (h : Stops l (peek ts)) :
    readOperators scope (n + 1) l e ts = .ok (e, ts) := by
  simp [h.operatorAt?]

theorem readAt_operators {n : Nat} (h : l ≠ .not ∧ l ≠ .sign ∧ l ≠ .call) :
    readAt scope (n + 1) l ts = (do
      let (e, ts) ← readAt scope n l.tighter ts
      readOperators scope n l e ts) := by
  obtain ⟨not, sign, call⟩ := h
  cases l <;> first | contradiction | rfl

theorem ReadsPrimary.reads (h : ReadsPrimary scope k ts o rest) (some : 0 < k)
    (stop : Stops .call (peek rest)) : Reads scope .call k ts o rest := by
  intro n hn
  obtain ⟨n, rfl⟩ := steps_succ (show 0 < n by omega)
  have height : Level.call.height = 1 := rfl
  obtain ⟨m, rfl⟩ := steps_succ (show 0 < n by omega)
  rw [readAt]
  exact (h (m + 1) (by omega)).bind_ok fun e => readMethods_stop stop.dot

theorem Reads.looser (h : Reads scope l.tighter k ts o rest) (some : 0 < k) (inner : l ≠ .call)
    (stop : Stops l (peek rest)) (not : l = .not → (peek ts).symbol? ≠ .some .not)
    (sign : l = .sign → (peek ts).symbol? ≠ .some .minus ∧ (peek ts).symbol? ≠ .some .plus) :
    Reads scope l k ts o rest := by
  intro n hn
  have height := Level.height_tighter inner
  obtain ⟨m, rfl⟩ := steps_succ (show 0 < n by omega)
  have read := h m (by omega)
  by_cases negation : l = .not
  · subst negation
    rw [readAt, if_neg (not rfl)]
    exact read
  · by_cases signed : l = .sign
    · subst signed
      obtain ⟨minus, plus⟩ := sign rfl
      rw [readAt]
      split
      · contradiction
      · contradiction
      · exact read
    · obtain ⟨i, rfl⟩ := steps_succ (show 0 < m by omega)
      rw [readAt_operators ⟨negation, signed, inner⟩]
      exact read.bind_ok fun e => readOperators_stop stop

theorem Reads.climb {m : Level} (h : Reads scope l k ts o rest) (some : 0 < k)
    (le : l.height ≤ m.height) (stop : Stops m (peek rest))
    (not : l.height < 6 → 6 ≤ m.height → (peek ts).symbol? ≠ .some .not)
    (sign : l = .call → (peek ts).symbol? ≠ .some .minus ∧ (peek ts).symbol? ≠ .some .plus) :
    Reads scope m k ts o rest := by
  -- by induction on the levels between
  obtain ⟨d, apart⟩ : ∃ d, m.height = l.height + d := Nat.exists_eq_add_of_le le
  induction d generalizing m with
  | zero =>
    obtain rfl := Level.eq_of_height apart
    exact h
  | succ d ih =>
    have positive := l.height_pos
    have inner : m ≠ .call := by
      rintro rfl
      have one : Level.call.height = 1 := rfl
      omega
    have height := Level.height_tighter inner
    have read : Reads scope m.tighter k ts o rest :=
      ih (by omega) (stop.mono (by omega)) (fun low high => not low (by omega)) (by omega)
    refine read.looser some inner stop (fun same => ?_) fun same => ?_
    · subst same
      have six : Level.not.height = 6 := rfl
      exact not (by omega) (Nat.le_refl _)
    · subst same
      have two : Level.sign.height = 2 := rfl
      have one : Level.call.height = 1 := rfl
      exact sign (Level.eq_of_height (by omega))

/-- What is read without a sign in front of it is read at every level. -/
theorem ReadsPrimary.climb (h : ReadsPrimary scope k ts o rest) (some : 0 < k)
    (stop : Stops l (peek rest)) (not : 6 ≤ l.height → (peek ts).symbol? ≠ .some .not)
    (sign : (peek ts).symbol? ≠ .some .minus ∧ (peek ts).symbol? ≠ .some .plus) :
    Reads scope l k ts o rest :=
  (h.reads some (stop.mono Level.height_pos)).climb some Level.height_pos stop
    (fun _ => not) fun _ => sign

/-- The same after a first token that is no operator at all. -/
theorem ReadsPrimary.climb_plain (h : ReadsPrimary scope k ts o rest) (some : 0 < k)
    (stop : Stops l (peek rest)) (plain : (peek ts).symbol? = none) : Reads scope l k ts o rest :=
  h.climb some stop (fun _ => by simp [plain]) (by simp [plain])

/-! ## Operators -/

theorem Reads.operator {m : Level} {s : Symbol} (symbol : (peek mid).symbol? = some s)
    (level : s.level? = some m) (left : Reads scope m.tighter k ts o mid)
    (right : Reads scope m.tighter k mid.tail p rest) (stop : Stops m (peek rest)) :
    Reads scope m (k + 1) ts (do
      let a ← o
      let b ← p
      some (binary s.text a b)) rest := by
  intro n hn
  have inner := Symbol.level_ne level
  have height := Level.height_tighter inner.2.2
  have positive := m.tighter.height_pos
  obtain ⟨n, rfl⟩ := steps_succ (show 0 < n by omega)
  obtain ⟨n, rfl⟩ := steps_succ (show 0 < n by omega)
  obtain ⟨i, rfl⟩ := steps_succ (show 0 < n by omega)
  have found : operatorAt? m mid = some s := by
    unfold operatorAt?
    rw [Option.filter_eq_some_iff]
    exact ⟨symbol, by simpa using level⟩
  rw [readAt_operators inner]
  refine (left (i + 2) (by omega)).bind fun a _ => ?_
  simp only [readOperators, found]
  refine (right (i + 1) (by omega)).bind fun b _ => ?_
  exact readOperators_stop stop

theorem Reads.negation (symbol : (peek ts).symbol? = some .not)
    (operand : Reads scope .not k ts.tail o rest) :
    Reads scope .not (k + 1) ts (do let e ← o; some (call "not" [e])) rest := by
  intro n hn
  obtain ⟨n, rfl⟩ := steps_succ (show 0 < n by omega)
  rw [readAt, if_pos symbol]
  exact (operand n (by omega)).bind fun e _ => rfl

theorem Reads.negative (symbol : peek ts = .op .minus)
    (fits : ¬(peek ts.tail = .whole 0x8000000000000000 ∧ peek ts.tail.tail ≠ .dot))
    (operand : Reads scope .sign k ts.tail o rest) :
    Reads scope .sign (k + 1) ts (do let e ← o; some (negate e)) rest := by
  intro n hn
  obtain ⟨n, rfl⟩ := steps_succ (show 0 < n by omega)
  have minus : (peek ts).symbol? = some .minus := by rw [symbol]; rfl
  rw [readAt, minus]
  simp only [fits, if_false]
  exact (operand n (by omega)).bind fun e _ => rfl

theorem Reads.least (symbol : peek ts = .op .minus)
    (least : peek ts.tail = .whole 0x8000000000000000 ∧ peek ts.tail.tail ≠ .dot) :
    Reads scope .sign k ts (some (int Int64.minValue)) ts.tail.tail := by
  intro n hn
  have height : Level.sign.height = 2 := rfl
  obtain ⟨n, rfl⟩ := steps_succ (show 0 < n by omega)
  have minus : (peek ts).symbol? = some .minus := by rw [symbol]; rfl
  rw [readAt, minus]
  simp only [least, if_true, ne_eq, not_false_eq_true, and_self]
  rfl

/-! ## Parentheses and calls -/

theorem ReadsPrimary.paren (opened : peek ts = .leftParen) (inner : Reads scope .or k ts.tail o mid)
    (closed : peek mid = .rightParen) : ReadsPrimary scope (k + 9) ts o mid.tail := by
  intro n hn
  have height : Level.or.height = 8 := rfl
  obtain ⟨n, rfl⟩ := steps_succ (show 0 < n by omega)
  rw [readPrimary, opened]
  exact (inner n (by omega)).bind_ok fun e => by simp [expect, closed]; rfl

theorem ReadsPrimary.unclosed (opened : peek ts = .leftParen)
    (inner : Reads scope .or k ts.tail o mid) (other : peek mid ≠ .rightParen) :
    ReadsPrimary scope (k + 9) ts none rest := by
  intro n hn
  have height : Level.or.height = 8 := rfl
  obtain ⟨n, rfl⟩ := steps_succ (show 0 < n by omega)
  rw [readPrimary, opened]
  refine (inner n (by omega)).bind_error fun e => ?_
  simp only [expect, other, if_false]
  cases mid <;> exact ⟨_, rfl⟩

theorem ReadsPrimary.missing (closed : peek ts = .rightParen) :
    ReadsPrimary scope k ts none rest := by
  intro n hn
  cases n with
  | zero =>
    rw [readPrimary]
    cases ts <;> exact ⟨_, rfl⟩
  | succ n =>
    rw [readPrimary, closed]
    cases ts <;> exact ⟨_, rfl⟩

theorem ReadsPrimary.call {name : String} {os : Option (List Formula)}
    (word : peek ts = .word name) (opened : peek ts.tail = .leftParen)
    (arguments : ReadsArguments scope k ts.tail.tail os rest) :
    ReadsPrimary scope (k + 1) ts (do let args ← os; some (Formula.call name args)) rest := by
  intro n hn
  obtain ⟨n, rfl⟩ := steps_succ (show 0 < n by omega)
  rw [readPrimary, word]
  simp only [opened, if_true]
  exact (arguments n (by omega)).bind fun args _ => rfl

theorem ReadsArguments.nothing (closed : peek ts = .rightParen) :
    ReadsArguments scope (k + 1) ts (some []) ts.tail := by
  intro n hn
  obtain ⟨n, rfl⟩ := steps_succ (show 0 < n by omega)
  rw [readArguments, if_pos closed]
  rfl

theorem ReadsMore.arguments {os : Option (List Formula)} (h : ReadsMore scope k ts os rest)
    (other : peek ts ≠ .rightParen) : ReadsArguments scope (k + 1) ts os rest := by
  intro n hn
  obtain ⟨n, rfl⟩ := steps_succ (show 0 < n by omega)
  rw [readArguments, if_neg other]
  exact h n (by omega)

theorem ReadsMore.last (first : Reads scope .or k ts o mid) (closed : peek mid = .rightParen) :
    ReadsMore scope (k + 9) ts (do let e ← o; some [e]) mid.tail := by
  intro n hn
  have height : Level.or.height = 8 := rfl
  obtain ⟨n, rfl⟩ := steps_succ (show 0 < n by omega)
  rw [readMoreArguments]
  refine (first n (by omega)).bind fun e _ => ?_
  simp only [closed]
  rfl

theorem ReadsMore.cons {os : Option (List Formula)} {m : Nat} (first : Reads scope .or k ts o mid)
    (comma : peek mid = .comma) (others : ReadsMore scope m mid.tail os rest) (le : k + 8 ≤ m) :
    ReadsMore scope (m + 1) ts (do let e ← o; let es ← os; some (e :: es)) rest := by
  intro n hn
  have height : Level.or.height = 8 := rfl
  obtain ⟨n, rfl⟩ := steps_succ (show 0 < n by omega)
  rw [readMoreArguments]
  refine (first n (by omega)).bind fun e _ => ?_
  simp only [comma]
  exact (others n (by omega)).bind fun es _ => rfl

/-! ## Constants and columns -/

theorem ReadsPrimary.token {e : Formula}
    (h : ∀ n, readPrimary scope (n + 1) ts = .ok (e, ts.tail)) :
    ReadsPrimary scope (k + 1) ts (some e) ts.tail := by
  intro n hn
  obtain ⟨n, rfl⟩ := steps_succ (show 0 < n by omega)
  exact h n

theorem ReadsPrimary.whole {m : Nat} (h : peek ts = .whole m) :
    ReadsPrimary scope (k + 1) ts (some (wholeConstant m)) ts.tail :=
  .token fun n => by simp [h]

theorem ReadsPrimary.decimal {x : Float} (h : peek ts = .decimal x) :
    ReadsPrimary scope (k + 1) ts (some (constant (.float x))) ts.tail :=
  .token fun n => by simp [h]

theorem ReadsPrimary.text {s : String} (h : peek ts = .text s) :
    ReadsPrimary scope (k + 1) ts (some (constant (.text s))) ts.tail :=
  .token fun n => by simp [h]

theorem ReadsPrimary.literal {word : String} {v : Value} (h : peek ts = .word word)
    (other : peek ts.tail ≠ .leftParen) (meaning : literal? word = some v) :
    ReadsPrimary scope (k + 1) ts (some (constant v)) ts.tail := by
  refine .token fun n => ?_
  rw [readPrimary, h]
  simp only [other, if_false, meaning]

theorem ReadsPrimary.column {name : String} (known : name ∈ scope.columns)
    (h : peek ts = .name name ∨
      peek ts = .word name ∧ peek ts.tail ≠ .leftParen ∧ literal? name = none) :
    ReadsPrimary scope (k + 1) ts (some (Formula.column name)) ts.tail := by
  have resolved : scope.resolve name = .ok (Formula.column name) := by
    rw [Scope.resolve, if_pos (by simpa using known)]
  refine .token fun n => ?_
  rw [readPrimary]
  rcases h with quoted | ⟨word, other, free⟩
  · rw [quoted]
    simp only [resolved]
    rfl
  · rw [word]
    simp only [other, if_false, free, resolved]
    rfl

end TableFlow.Formula
