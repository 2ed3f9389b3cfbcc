import TableFlow.Proofs.Table.Quicksort

/-!
# Sorting by runs

By a total preorder every list has a sorted form, and it is the one by insertion
(`sort?_eq_sortStable`). The list is cut into runs that are in order or as they came, and runs that
stand next to each other are joined; `Run.Rises` is kept by both. By a comparison that is no
total preorder the sort may give up, but what it returns has all elements (`sort?_keeps`), and it
looks at nothing but the comparison (`sort?_map`). Three elements are enough for it to give up
(`sort?_unsortable`).
-/

namespace TableFlow

variable {α β : Type} {less : α → α → Bool} {narrow eager : Bool} {good : Nat} {a : α}
  {l out : List α} {run : Run α} {runs : List (Run α)}

def Run.map (f : α → β) (run : Run α) : Run β :=
  ⟨run.sorted, run.elements.map f⟩

/-! ## Cutting into runs -/

section

variable {follows : α → α → Bool}

theorem stretch_cons_pos : 0 < stretch follows (a :: l) := by
  cases l with
  | nil => exact Nat.one_pos
  | cons b l =>
    rw [stretch]
    split <;> omega

theorem isChain_stretch (follows : α → α → Bool) (l : List α) :
    (l.take (stretch follows l)).IsChain fun a b => follows a b = true := by
  induction l with
  | nil => exact .nil
  | cons a l ih =>
    cases l with
    | nil => exact .singleton a
    | cons b l =>
      rw [stretch]
      split
      · rename_i follow
        have some : 0 < stretch follows (b :: l) := stretch_cons_pos
        obtain ⟨n, next⟩ := Nat.exists_eq_succ_of_ne_zero (Nat.ne_of_gt some)
        rw [next, List.take_succ_cons] at ih ⊢
        exact .cons_cons follow ih
      · exact .singleton a

theorem stretch_map {follows : β → β → Bool} {f : α → β} :
    stretch follows (l.map f) = stretch (fun a b => follows (f a) (f b)) l := by
  induction l with
  | nil => rfl
  | cons a l ih =>
    cases l with
    | nil => rfl
    | cons b l =>
      rw [List.map_cons, List.map_cons, stretch, stretch, ← List.map_cons, ih]

end

theorem startsFalling_map {less : β → β → Bool} {f : α → β} :
    startsFalling less (l.map f) = startsFalling (fun a b => less (f a) (f b)) l := by
  match l with
  | [] | [_] | _ :: _ :: _ => rfl

/-- A run has the elements of a start of the list. -/
theorem nextRun?_takes (found : nextRun? less narrow eager good (a :: l) = some run) :
    ∃ n, 0 < n ∧ run.elements.Perm ((a :: l).take n) := by
  rw [nextRun?] at found
  generalize startsFalling less (a :: l) = falls at found
  generalize (fun a b => less b a == falls) = follows at found
  split at found
  · obtain rfl := Option.some.inj found
    refine ⟨stretch follows (a :: l), stretch_cons_pos, ?_⟩
    split
    · exact List.reverse_perm _
    · exact .refl _
  · split at found
    · obtain ⟨sorted, short, rfl⟩ := Option.map_eq_some_iff.1 found
      exact ⟨32, by omega, sortShort?_keeps _ _ short⟩
    · obtain rfl := Option.some.inj found
      exact ⟨good, by omega, .refl _⟩

/-- What follows a run in the list is what the next run is looked for in. -/
theorem nextRun?_splits (found : nextRun? less narrow eager good (a :: l) = some run) :
    ∃ n, run.elements.Perm ((a :: l).take n) ∧
      l.drop (run.elements.length - 1) = (a :: l).drop n := by
  obtain ⟨n, some, perm⟩ := nextRun?_takes found
  refine ⟨n, perm, ?_⟩
  obtain ⟨m, rfl⟩ := Nat.exists_eq_succ_of_ne_zero (Nat.ne_of_gt some)
  rw [perm.length_eq, List.length_take, List.length_cons, List.drop_succ_cons]
  obtain le | le := Nat.le_total m l.length
  · rw [Nat.min_eq_left (by omega), Nat.succ_sub_one]
  · rw [Nat.min_eq_right (by omega), Nat.add_sub_cancel, List.drop_length,
      List.drop_eq_nil_of_le le]

theorem cutRuns?_keeps (found : cutRuns? less narrow eager good l = some runs) :
    (runs.flatMap (·.elements)).Perm l := by
  induction l using cutRuns?.induct generalizing runs with
  | case1 =>
    rw [cutRuns?] at found
    obtain rfl := Option.some.inj found
    exact .refl _
  | case2 a l ih =>
    rw [cutRuns?] at found
    obtain ⟨run, next, found⟩ := Option.bind_eq_some_iff.1 found
    obtain ⟨rest, later, found⟩ := Option.bind_eq_some_iff.1 found
    obtain rfl := Option.some.inj found
    obtain ⟨n, perm, remaining⟩ := nextRun?_splits next
    calc ((run :: rest).flatMap (·.elements)).Perm
          (run.elements ++ l.drop (run.elements.length - 1)) := (ih run later).append_left _
      List.Perm _ ((a :: l).take n ++ (a :: l).drop n) := remaining ▸ perm.append_right _
      _ = a :: l := List.take_append_drop ..

theorem nextRun?_map {less : β → β → Bool} {f : α → β} :
    nextRun? less narrow eager good (l.map f) =
      (nextRun? (fun a b => less (f a) (f b)) narrow eager good l).map (Run.map f) := by
  simp only [nextRun?, startsFalling_map, stretch_map, ← List.map_take, ← List.map_reverse,
    sortShort?_map]
  split
  · simp only [Option.map_some, Run.map]
    split <;> rfl
  · split
    · simp [Run.map, Function.comp_def]
    · rfl

theorem cutRuns?_map {less : β → β → Bool} {f : α → β} :
    cutRuns? less narrow eager good (l.map f) =
      (cutRuns? (fun a b => less (f a) (f b)) narrow eager good l).map (List.map (Run.map f)) := by
  induction l using cutRuns?.induct with
  | case1 => simp [cutRuns?]
  | case2 a l ih =>
    rw [List.map_cons, cutRuns?, cutRuns?, ← List.map_cons, nextRun?_map]
    cases nextRun? (fun a b => less (f a) (f b)) narrow eager good (a :: l) with
    | none => rfl
    | some run =>
      have rest := ih run
      have size : (run.map f).elements.length = run.elements.length := List.length_map _
      rw [List.map_drop] at rest
      simp only [size, rest, Option.bind_eq_bind, Option.bind_some, Option.map_some,
        Option.map_bind, Option.bind_map]
      rfl

/-- A run that is in order or, if runs need not be sorted at once, as it came. -/
def Run.Rises (cmp : α → α → Ordering) (before : α → α → Prop) (eager : Bool) (run : Run α) :
    Prop :=
  if run.sorted then run.elements.Pairwise (InOrder cmp before)
  else eager = false ∧ run.elements.Pairwise before

/-- All of one run came before all of the other. -/
def Run.Precedes (before : α → α → Prop) (r s : Run α) : Prop :=
  ∀ a ∈ r.elements, ∀ b ∈ s.elements, before a b

section

variable {cmp : α → α → Ordering} {before : α → α → Prop} [Std.TransCmp cmp]

theorem pairwise_falling (falling : l.IsChain fun a b => cmp b a = .lt) :
    l.reverse.Pairwise (InOrder cmp before) := by
  have trans : IsTrans α fun a b => cmp b a = .lt :=
    ⟨fun _ _ _ ab bc => Std.TransCmp.lt_trans bc ab⟩
  rw [List.pairwise_reverse]
  exact (List.isChain_iff_pairwise.1 falling).imp .inl

theorem pairwise_rising (rising : l.IsChain fun a b => (cmp a b).isLE = true)
    (given : l.Pairwise before) : l.Pairwise (InOrder cmp before) := by
  have trans : IsTrans α fun a b => (cmp a b).isLE = true := ⟨fun _ _ _ => Std.TransCmp.isLE_trans⟩
  exact ((List.isChain_iff_pairwise.1 rising).and given).imp fun both =>
    inOrder_of_isLE both.1 both.2

variable [Std.Asymm before]

theorem nextRun?_rises (given : l.Pairwise before) :
    ∃ run, nextRun? (fun a b => cmp a b == .lt) narrow eager good l = some run ∧
      run.Rises cmp before eager := by
  rw [nextRun?]
  generalize startsFalling (fun a b => cmp a b == .lt) l = falls
  split
  · have chain := isChain_stretch (fun a b => (cmp b a == .lt) == falls) l
    refine ⟨_, rfl, ?_⟩
    cases falls
    · exact pairwise_rising (chain.imp fun a b up => isLE_of_not_less (by simpa using up))
        (given.sublist (List.take_sublist ..))
    · exact pairwise_falling (chain.imp fun a b down => by simpa using down)
  · split
    · obtain ⟨out, short, rising⟩ : ∃ out, sortShort? (fun a b => cmp a b == .lt) narrow
          (l.take 32) = some out ∧ out.Pairwise (InOrder cmp before) :=
        sortShort?_sorts _ (given.sublist (List.take_sublist ..))
      exact ⟨⟨true, out⟩, congrArg (Option.map _) short, rising⟩
    · rename_i late
      exact ⟨_, rfl, by simpa using late, given.sublist (List.take_sublist ..)⟩

theorem cutRuns?_rises (given : l.Pairwise before) :
    ∃ runs, cutRuns? (fun a b => cmp a b == .lt) narrow eager good l = some runs ∧
      (∀ run ∈ runs, run.Rises cmp before eager) ∧ runs.Pairwise (Run.Precedes before) := by
  induction l using cutRuns?.induct with
  | case1 => exact ⟨[], by rw [cutRuns?], by simp, .nil⟩
  | case2 a l ih =>
    obtain ⟨run, next, rises⟩ : ∃ run, nextRun? (fun a b => cmp a b == .lt) narrow eager good
        (a :: l) = some run ∧ run.Rises cmp before eager := nextRun?_rises given
    obtain ⟨n, perm, remaining⟩ := nextRun?_splits next
    obtain ⟨rest, later, rise, precede⟩ := ih run
      ((List.pairwise_cons.1 given).2.sublist (List.drop_sublist ..))
    have apart := (List.pairwise_append.1 (((a :: l).take_append_drop n).symm ▸ given)).2.2
    refine ⟨run :: rest, by rw [cutRuns?, next]; simp [later],
      List.forall_mem_cons.2 ⟨rises, rise⟩, List.pairwise_cons.2 ⟨?_, precede⟩⟩
    intro s listed a mem b mem'
    have inside := (cutRuns?_keeps later).mem_iff.1 (List.mem_flatMap.2 ⟨s, listed, mem'⟩)
    exact apart a (perm.mem_iff.1 mem) b (remaining ▸ inside)

end

/-! ## Joining runs -/

variable {room depth n stop : Nat} {sortRun? : List α → Option (List α)}
  {join? : Run α → Run α → Option (Run α)} {left right joined last last' whole : Run α}
  {before before' : List (Nat × Run α)} {rest : List (Run α)}

theorem Run.inOrder?_keeps (kept : Keeps sortRun?) (found : run.inOrder? sortRun? = some out) :
    out.Perm run.elements := by
  rw [inOrder?] at found
  split at found
  · obtain rfl := Option.some.inj found
    exact .refl _
  · exact kept _ _ found

theorem Run.join?_keeps (kept : Keeps sortRun?)
    (found : Run.join? less room sortRun? left right = some joined) :
    joined.elements.Perm (left.elements ++ right.elements) := by
  rw [join?] at found
  split at found
  · obtain rfl := Option.some.inj found
    exact .refl _
  · obtain ⟨l, foundl, found⟩ := Option.bind_eq_some_iff.1 found
    obtain ⟨r, foundr, found⟩ := Option.bind_eq_some_iff.1 found
    obtain rfl := Option.some.inj found
    exact merge_perm.trans ((inOrder?_keeps kept foundl).append (inOrder?_keeps kept foundr))

theorem collapse?_zero (found : collapse? join? 0 before last = some (before', last')) :
    before' = [] := by
  induction before generalizing last with
  | nil =>
    cases found
    rfl
  | cons top before ih =>
    rw [collapse?, if_pos (Nat.zero_le _)] at found
    obtain ⟨joined, -, found⟩ := Option.bind_eq_some_iff.1 found
    exact ih found

section

variable (kept : ∀ {left right joined}, join? left right = some joined →
  joined.elements.Perm (left.elements ++ right.elements))

include kept

theorem collapse?_keeps (found : collapse? join? depth before last = some (before', last')) :
    ((last' :: before'.map (·.2)).flatMap (·.elements)).Perm
      ((last :: before.map (·.2)).flatMap (·.elements)) := by
  induction before generalizing last with
  | nil =>
    cases found
    exact .refl _
  | cons top before ih =>
    rw [collapse?] at found
    split at found
    · obtain ⟨joined, join, found⟩ := Option.bind_eq_some_iff.1 found
      calc ((last' :: before'.map (·.2)).flatMap (·.elements)).Perm
            (joined.elements ++ (before.map (·.2)).flatMap (·.elements)) := ih found
        List.Perm _ (last.elements ++ top.2.elements ++ (before.map (·.2)).flatMap (·.elements)) :=
          ((kept join).trans List.perm_append_comm).append_right _
        _ = (last :: (top :: before).map (·.2)).flatMap (·.elements) := by simp
    · cases found
      exact .refl _

theorem joinRuns?_keeps (found : joinRuns? join? n before last stop rest = some whole) :
    whole.elements.Perm ((last :: before.map (·.2) ++ rest).flatMap (·.elements)) := by
  induction rest generalizing before last stop with
  | nil =>
    obtain ⟨⟨before', last'⟩, all, rfl⟩ := Option.map_eq_some_iff.1 found
    obtain rfl := collapse?_zero all
    simpa using collapse?_keeps kept all
  | cons next rest ih =>
    obtain ⟨⟨before', last'⟩, deep, found⟩ := Option.bind_eq_some_iff.1 found
    calc whole.elements.Perm
          ((next :: last' :: before'.map (·.2) ++ rest).flatMap (·.elements)) := ih found
      List.Perm _ (next.elements ++ (last :: before.map (·.2)).flatMap (·.elements) ++
          rest.flatMap (·.elements)) := by
        rw [List.cons_append, List.flatMap_cons, List.flatMap_append, ← List.append_assoc]
        exact ((collapse?_keeps kept deep).append_left _).append_right _
      List.Perm _ ((last :: before.map (·.2)).flatMap (·.elements) ++ next.elements ++
          rest.flatMap (·.elements)) := List.perm_append_comm.append_right _
      _ = (last :: before.map (·.2) ++ next :: rest).flatMap (·.elements) := by simp

end

theorem sortRuns?_keeps (kept : Keeps sortRun?) :
    Keeps (sortRuns? less narrow room eager sortRun?) := by
  intro l out found
  obtain ⟨runs, cut, found⟩ := Option.bind_eq_some_iff.1 found
  have perm := cutRuns?_keeps cut
  match runs, found with
  | [], found =>
    cases found
    exact perm
  | first :: rest, found =>
    obtain ⟨whole, join, found⟩ := Option.bind_eq_some_iff.1 found
    calc out.Perm whole.elements := Run.inOrder?_keeps kept found
      List.Perm _ ((first :: rest).flatMap (·.elements)) := by
        simpa using joinRuns?_keeps (Run.join?_keeps kept) join
      List.Perm _ l := perm

section

variable {cmp : α → α → Ordering} {ahead : α → α → Prop} [Std.TransCmp cmp]

omit [Std.TransCmp cmp] in
theorem Run.inOrder?_sorts (sorts : eager = false → Sorts cmp ahead sortRun?)
    (rises : run.Rises cmp ahead eager) :
    ∃ out, run.inOrder? sortRun? = some out ∧ out.Pairwise (InOrder cmp ahead) := by
  rw [Rises] at rises
  rw [inOrder?]
  split
  · rename_i sorted
    exact ⟨_, rfl, by rwa [if_pos sorted] at rises⟩
  · rename_i unsorted
    rw [if_neg unsorted] at rises
    exact sorts rises.1 _ rises.2

theorem Run.join?_rises (sorts : eager = false → Sorts cmp ahead sortRun?) (kept : Keeps sortRun?)
    (risel : left.Rises cmp ahead eager) (riser : right.Rises cmp ahead eager)
    (apart : left.Precedes ahead right) :
    ∃ joined, Run.join? (fun a b => cmp a b == .lt) room sortRun? left right = some joined ∧
      joined.Rises cmp ahead eager := by
  rw [join?]
  split
  · rename_i unsorted
    obtain ⟨-, unsortedl, unsortedr⟩ := unsorted
    rw [Rises, if_neg (by simpa using unsortedl)] at risel
    rw [Rises, if_neg (by simpa using unsortedr)] at riser
    exact ⟨_, rfl, risel.1, List.pairwise_append.2 ⟨risel.2, riser.2, apart⟩⟩
  · obtain ⟨l, foundl, risingl⟩ := inOrder?_sorts sorts risel
    obtain ⟨r, foundr, risingr⟩ := inOrder?_sorts sorts riser
    refine ⟨⟨true, merge (fun a b => cmp a b == .lt) l r⟩, by simp [foundl, foundr], ?_⟩
    exact merge_pairwise risingl risingr
      (apart_of_perm (inOrder?_keeps kept foundl) (inOrder?_keeps kept foundr) apart)

/-- The runs that were met, the last one first, each of them in order and after the next. -/
structure Joinable (cmp : α → α → Ordering) (ahead : α → α → Prop) (eager : Bool)
    (before : List (Nat × Run α)) (last : Run α) : Prop where
  rise : ∀ run ∈ last :: before.map (·.2), run.Rises cmp ahead eager
  apart : (last :: before.map (·.2)).Pairwise fun s r => r.Precedes ahead s

section

variable (kept : ∀ {left right joined}, join? left right = some joined →
    joined.elements.Perm (left.elements ++ right.elements))
  (rises : ∀ {left right}, left.Rises cmp ahead eager → right.Rises cmp ahead eager →
    left.Precedes ahead right →
      ∃ joined, join? left right = some joined ∧ joined.Rises cmp ahead eager)

include kept rises

omit [Std.TransCmp cmp] in
theorem collapse?_rises (depth : Nat) (met : Joinable cmp ahead eager before last) :
    ∃ before' last', collapse? join? depth before last = some (before', last') ∧
      Joinable cmp ahead eager before' last' := by
  induction before generalizing last with
  | nil => exact ⟨[], last, rfl, met⟩
  | cons top before ih =>
    rw [collapse?]
    split
    · obtain ⟨riseLast, rise⟩ := List.forall_mem_cons.1 met.rise
      obtain ⟨riseTop, rise⟩ := List.forall_mem_cons.1 rise
      obtain ⟨apartLast, apart⟩ := List.pairwise_cons.1 met.apart
      obtain ⟨apartTop, apart⟩ := List.pairwise_cons.1 apart
      obtain ⟨joined, join, riseJoined⟩ := rises riseTop riseLast (apartLast _ (by simp))
      have met' : Joinable cmp ahead eager before joined := by
        refine ⟨List.forall_mem_cons.2 ⟨riseJoined, rise⟩, List.pairwise_cons.2 ⟨?_, apart⟩⟩
        intro r mem a first b later
        obtain later | later := List.mem_append.1 ((kept join).mem_iff.1 later)
        · exact apartTop r mem a first b later
        · exact apartLast r (List.mem_cons_of_mem _ mem) a first b later
      obtain ⟨before', last', found, met'⟩ := ih met'
      exact ⟨before', last', by simp [join, found], met'⟩
    · exact ⟨_, _, rfl, met⟩

omit [Std.TransCmp cmp] in
theorem joinRuns?_rises (met : Joinable cmp ahead eager before last)
    (rise : ∀ run ∈ rest, run.Rises cmp ahead eager) (apart : rest.Pairwise (Run.Precedes ahead))
    (after : ∀ a ∈ (last :: before.map (·.2)).flatMap (·.elements),
      ∀ b ∈ rest.flatMap (·.elements), ahead a b) :
    ∃ whole, joinRuns? join? n before last stop rest = some whole ∧
      whole.Rises cmp ahead eager := by
  induction rest generalizing before last stop with
  | nil =>
    obtain ⟨before', last', found, met'⟩ := collapse?_rises kept rises 0 met
    exact ⟨last', by simp [joinRuns?, found], (List.forall_mem_cons.1 met'.rise).1⟩
  | cons next rest ih =>
    obtain ⟨riseNext, rise⟩ := List.forall_mem_cons.1 rise
    obtain ⟨apartNext, apart⟩ := List.pairwise_cons.1 apart
    generalize depth_def : mergeDepth n (stop - last.elements.length) stop
      (stop + next.elements.length) = depth
    obtain ⟨before', last', found, met'⟩ := collapse?_rises kept rises depth met
    have old {a : α} (mem : a ∈ (last' :: before'.map (·.2)).flatMap (·.elements)) :
        ∀ b ∈ (next :: rest).flatMap (·.elements), ahead a b :=
      after a ((collapse?_keeps kept found).mem_iff.1 mem)
    have met : Joinable cmp ahead eager ((depth, last') :: before') next := by
      refine ⟨List.forall_mem_cons.2 ⟨riseNext, met'.rise⟩, List.pairwise_cons.2 ⟨?_, met'.apart⟩⟩
      exact fun r mem a first b later =>
        old (List.mem_flatMap.2 ⟨r, mem, first⟩) b (by simp [later])
    have after' : ∀ a ∈ (next :: last' :: before'.map (·.2)).flatMap (·.elements),
        ∀ b ∈ rest.flatMap (·.elements), ahead a b := by
      intro a mem b later
      rw [List.flatMap_cons] at mem
      obtain mem | mem := List.mem_append.1 mem
      · obtain ⟨s, listed, later⟩ := List.mem_flatMap.1 later
        exact apartNext s listed a mem b later
      · exact old mem b (List.mem_append_right _ later)
    obtain ⟨whole, join, rises⟩ := ih met rise apart after'
    exact ⟨whole, by simpa [joinRuns?, depth_def, found] using join, rises⟩

end

variable [Std.Asymm ahead]

theorem sortRuns?_sorts (sorts : eager = false → Sorts cmp ahead sortRun?) (kept : Keeps sortRun?) :
    Sorts cmp ahead (sortRuns? (fun a b => cmp a b == .lt) narrow room eager sortRun?) := by
  intro l given
  obtain ⟨runs, cut, rise, apart⟩ : ∃ runs, cutRuns? (fun a b => cmp a b == .lt) narrow eager
      (goodLength l.length) l = some runs ∧ (∀ run ∈ runs, run.Rises cmp ahead eager) ∧
      runs.Pairwise (Run.Precedes ahead) := cutRuns?_rises given
  rw [sortRuns?, cut]
  match runs with
  | [] => exact ⟨[], rfl, .nil⟩
  | first :: rest =>
    obtain ⟨riseFirst, rise⟩ := List.forall_mem_cons.1 rise
    obtain ⟨apartFirst, apart⟩ := List.pairwise_cons.1 apart
    have met : Joinable cmp ahead eager [] first :=
      ⟨by simpa using riseFirst, List.pairwise_singleton ..⟩
    have after : ∀ a ∈ [first].flatMap (·.elements), ∀ b ∈ rest.flatMap (·.elements),
        ahead a b := by
      intro a mem b later
      obtain ⟨s, listed, later⟩ := List.mem_flatMap.1 later
      exact apartFirst s listed a (by simpa using mem) b later
    obtain ⟨whole, join, rises⟩ : ∃ whole, joinRuns? (Run.join? (fun a b => cmp a b == .lt) room
        sortRun?) l.length [] first first.elements.length rest = some whole ∧
        whole.Rises cmp ahead eager :=
      joinRuns?_rises (Run.join?_keeps kept) (Run.join?_rises sorts kept) met rise apart after
    obtain ⟨out, found, rising⟩ := Run.inOrder?_sorts sorts rises
    exact ⟨out, by simp [join, found], rising⟩

end

section

variable {less : β → β → Bool} {f : α → β}

theorem Run.inOrder?_map {sortRun'? : List β → Option (List β)}
    (same : ∀ l, sortRun'? (l.map f) = (sortRun? l).map (List.map f)) :
    (run.map f).inOrder? sortRun'? = (run.inOrder? sortRun?).map (List.map f) := by
  simp only [inOrder?, Run.map, same]
  split <;> rfl

theorem Run.join?_map {sortRun'? : List β → Option (List β)}
    (same : ∀ l, sortRun'? (l.map f) = (sortRun? l).map (List.map f)) :
    Run.join? less room sortRun'? (left.map f) (right.map f) =
      (Run.join? (fun a b => less (f a) (f b)) room sortRun? left right).map (Run.map f) := by
  rw [join?, join?, inOrder?_map same, inOrder?_map same]
  simp only [Run.map, List.length_map]
  split
  · simp [Run.map]
  · simp [Run.map, Option.map_bind, Option.bind_map, Function.comp_def, merge_map]

variable {join'? : Run β → Run β → Option (Run β)}

theorem collapse?_map
    (same : ∀ left right, join'? (left.map f) (right.map f) = (join? left right).map (Run.map f)) :
    collapse? join'? depth (before.map (Prod.map id (Run.map f))) (last.map f) =
      (collapse? join? depth before last).map
        (Prod.map (List.map (Prod.map id (Run.map f))) (Run.map f)) := by
  induction before generalizing last with
  | nil => rfl
  | cons top before ih =>
    simp only [List.map_cons, collapse?, Prod.map, id]
    split
    · rw [same]
      cases join? top.2 last with
      | none => rfl
      | some joined => exact ih
    · rfl

theorem joinRuns?_map (before : List (Nat × Run α))
    (same : ∀ left right, join'? (left.map f) (right.map f) = (join? left right).map (Run.map f)) :
    joinRuns? join'? n (before.map (Prod.map id (Run.map f))) (last.map f) stop
        (rest.map (Run.map f)) =
      (joinRuns? join? n before last stop rest).map (Run.map f) := by
  induction rest generalizing before last stop with
  | nil => simp [joinRuns?, collapse?_map same, Function.comp_def]
  | cons next rest ih =>
    have size (run : Run α) : (run.map f).elements.length = run.elements.length :=
      List.length_map ..
    rw [List.map_cons, joinRuns?, joinRuns?, size, size, collapse?_map same]
    generalize mergeDepth n (stop - last.elements.length) stop
      (stop + next.elements.length) = depth
    cases collapse? join? depth before last with
    | none => rfl
    | some met => exact ih ((depth, met.2) :: met.1)

end

theorem sortRuns?_map {less : β → β → Bool} {f : α → β} {sortRun'? : List β → Option (List β)}
    (same : ∀ l, sortRun'? (l.map f) = (sortRun? l).map (List.map f)) :
    sortRuns? less narrow room eager sortRun'? (l.map f) =
      (sortRuns? (fun a b => less (f a) (f b)) narrow room eager sortRun? l).map (List.map f) := by
  rw [sortRuns?, sortRuns?, List.length_map, cutRuns?_map]
  cases cutRuns? (fun a b => less (f a) (f b)) narrow eager (goodLength l.length) l with
  | none => rfl
  | some runs =>
    match runs with
    | [] => rfl
    | first :: rest =>
      have size : (first.map f).elements.length = first.elements.length := List.length_map ..
      have join : joinRuns? (Run.join? less room sortRun'?) l.length [] (first.map f)
            first.elements.length (rest.map (Run.map f)) =
          (joinRuns? (Run.join? (fun a b => less (f a) (f b)) room sortRun?) l.length [] first
            first.elements.length rest).map (Run.map f) :=
        joinRuns?_map [] fun _ _ => Run.join?_map same
      simp only [Option.map_some, List.map_cons, Option.bind_eq_bind, Option.bind_some, size, join]
      cases joinRuns? (Run.join? (fun a b => less (f a) (f b)) room sortRun?) l.length [] first
        first.elements.length rest with
      | none => rfl
      | some whole => exact Run.inOrder?_map same

/-! ## Lists of any length -/

variable {width : Nat}

theorem sort?_of_short (short : l.length ≤ 20) : sort? width less l = some (sortStable less l) :=
  if_pos short

theorem some_keeps : Keeps (some : List α → Option (List α)) :=
  fun _ _ found => .of_eq (Option.some.inj found).symm

theorem sort?_keeps : Keeps (sort? width less) := by
  intro l out found
  have eager {room : Nat} : Keeps (sortRuns? less (decide (width ≤ 16)) room true some) :=
    sortRuns?_keeps some_keeps
  rw [sort?] at found
  split at found
  · obtain rfl := Option.some.inj found
    exact sortStable_perm
  · split at found
    · exact eager l out found
    · exact sortRuns?_keeps (fun part out found =>
        quicksort?_keeps eager part out found) l out found

/-- What is sorted by a property of the elements can be sorted before they are made. -/
theorem sort?_map {less : β → β → Bool} {f : α → β} :
    sort? width less (l.map f) =
      (sort? width (fun a b => less (f a) (f b)) l).map (List.map f) := by
  have eager {room : Nat} (l : List α) :
      sortRuns? less (decide (width ≤ 16)) room true some (l.map f) =
        (sortRuns? (fun a b => less (f a) (f b)) (decide (width ≤ 16)) room true some l).map
          (List.map f) := sortRuns?_map fun _ => rfl
  rw [sort?, sort?, List.length_map]
  split
  · rw [sortStable_map]
    rfl
  · split
    · exact eager l
    · refine sortRuns?_map fun part => ?_
      rw [List.length_map, ← Option.map_none f, quicksort?_map eager]

section

variable {cmp : α → α → Ordering} {ahead : α → α → Prop} [Std.TransCmp cmp] [Std.Asymm ahead]

theorem sort?_sorts : Sorts cmp ahead (sort? width fun a b => cmp a b == .lt) := by
  intro l given
  have eager {room : Nat} : Sorts cmp ahead
      (sortRuns? (fun a b => cmp a b == .lt) (decide (width ≤ 16)) room true some) :=
    sortRuns?_sorts (by simp) some_keeps
  rw [sort?]
  split
  · exact ⟨_, rfl, sortStable_pairwise given⟩
  · split
    · exact eager l given
    · refine sortRuns?_sorts (fun _ part given => ?_) (fun part out found => ?_) l given
      · exact quicksort?_sorts eager (sortRuns?_keeps some_keeps) part given
      · exact quicksort?_keeps (sortRuns?_keeps some_keeps) part out found

/-- By a total preorder there is one sorted form, the one by insertion. -/
theorem sort?_eq_sortStable :
    sort? width (fun a b => cmp a b == .lt) l =
      some (sortStable (fun a b => cmp a b == .lt) l) := by
  -- the elements by their places, which tell equal ones apart
  have places : (List.finRange l.length).map l.get = l := List.map_get_finRange l
  have order : Std.TransCmp fun i j : Fin l.length => cmp (l.get i) (l.get j) :=
    { eq_swap := Std.OrientedCmp.eq_swap, isLE_trans := Std.TransCmp.isLE_trans }
  obtain ⟨out, found, rising⟩ : ∃ out, sort? width
      (fun i j : Fin l.length => cmp (l.get i) (l.get j) == .lt) (List.finRange l.length) =
        some out ∧ out.Pairwise (InOrder (fun i j => cmp (l.get i) (l.get j)) (· < ·)) :=
    sort?_sorts _ (List.pairwise_lt_finRange _)
  have same := eq_of_rising rising (sortStable_pairwise (List.pairwise_lt_finRange _))
    ((sort?_keeps _ _ found).trans sortStable_perm.symm)
  rw [← places, sort?_map, sortStable_map, found, same]
  rfl

end

/-! ## A list that the sort gives up on -/

/-- A list of up to 32 elements that is in order for less than half of it is sorted as a short
one. -/
theorem sort?_eq_sortShort? (long : 20 < l.length) (short : l.length ≤ 32)
    (mixed : stretch (fun a b => less b a == startsFalling less l) l < l.length - l.length / 2) :
    sort? width less l = sortShort? less (decide (width ≤ 16)) l := by
  match l with
  | a :: l =>
    have good : goodLength (a :: l).length = (a :: l).length - (a :: l).length / 2 := by
      rw [goodLength, if_pos (by omega)]
      omega
    rw [sort?, if_neg (by omega), if_pos (by omega), sortRuns?, good, cutRuns?, nextRun?,
      if_neg (by omega), if_pos rfl, List.take_of_length_le short]
    cases found : sortShort? less (decide (width ≤ 16)) (a :: l) with
    | none => rfl
    | some out =>
      have rest : l.drop (out.length - 1) = [] := by
        rw [(sortShort?_keeps _ _ found).length_eq]
        exact List.drop_length
      simp [rest, cutRuns?, joinRuns?, collapse?, Run.inOrder?]

/-- Over three elements of which the first is less than the last and the middle one is equal to
both. -/
def unsortable : List (Fin 3) :=
  [2, 0] ++ List.replicate 8 2 ++ [1] ++ List.replicate 10 0

/-- Such elements come in an order in which the sort gives up. -/
theorem sort?_unsortable {pick : Fin 3 → α}
    (apart : ∀ i j, less (pick i) (pick j) = decide (i = 0 ∧ j = 2)) :
    sort? width less (unsortable.map pick) = none := by
  have same : (fun i j => less (pick i) (pick j)) = fun i j => decide (i = 0 ∧ j = 2) :=
    funext fun i => funext fun j => apart i j
  have stuck : sort? width (fun i j : Fin 3 => decide (i = 0 ∧ j = 2)) unsortable = none := by
    rw [sort?_eq_sortShort? (by decide) (by decide) (by decide)]
    cases decide (width ≤ 16) <;> decide +kernel
  rw [sort?_map, same, stuck]
  rfl

end TableFlow
