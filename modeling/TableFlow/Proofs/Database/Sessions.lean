import TableFlow.Database.Tables
import TableFlow.Proofs.Outcome

/-!
# Sessions and their requests

`Session.Gives s made x` says which requests a session makes and how it ends if the engine
fails none of them; there is one rule for each way to put sessions together. An error that
the engine brings about is never one of those that can be found without it
(`DatabaseError.Foreseen`).
-/

namespace TableFlow

/-- Errors that are found without the database. -/
def DatabaseError.Foreseen : DatabaseError → Prop
  | missingBinding _ | model _ | sql _ | unsupportedValue .. => True
  | notOpened _ | failed _ | notFound _ => False

theorem DatabaseError.not_foreseen_ofReason {reason : String} : ¬(ofReason reason).Foreseen := by
  unfold ofReason
  dsimp only
  split <;> exact id

namespace Database

def Engine.Accepts (e : Engine) : Prop := ∀ reason, Reply.fail reason ∉ e.replies

theorem Engine.accepts_tail {r : Reply} {rest : List Reply} {log log' : List Request}
    (accepts : Accepts ⟨r :: rest, log⟩) : Accepts ⟨rest, log'⟩ :=
  fun reason mem => accepts reason (List.mem_cons_of_mem r mem)

namespace Session

variable {α β : Type} {s : Session α} {f : α → Session β} {made more : List Request}
  {x : Except DatabaseError α} {y : Except DatabaseError β} {a : α} {err : DatabaseError}

/-- A session runs on until it fails. -/
theorem run_bind {e : Engine} : run (s >>= f) e =
    match run s e with
    | (.ok a, e') => run (f a) e'
    | (.error err, e') => (.error err, e') := by
  show run (ExceptT.bind s f) e = _
  unfold run ExceptT.bind ExceptT.mk ExceptT.run
  rw [StateT.run_bind]
  show (match StateT.run s e with | (r, e') => _) = _
  rcases StateT.run s e with ⟨_ | _, _⟩ <;> rfl

/-- The requests that a session makes and its result, as long as the engine fails none of
them; else it ends with an error of the engine. -/
structure Gives (s : Session α) (made : List Request) (x : Except DatabaseError α) : Prop where
  accepted : ∀ e : Engine, e.Accepts →
    ∃ e' : Engine, run s e = (x, e') ∧ e'.log = e.log ++ made ∧ e'.Accepts
  otherwise : ∀ e, (run s e).1 = x ∧ (run s e).2.log = e.log ++ made ∨
    ∃ err, (run s e).1 = .error err ∧ ¬err.Foreseen

namespace Gives

/-- A session that ends well has made its requests. -/
theorem of_ok {e : Engine} (gives : Gives s made x) (ended : (run s e).1 = .ok a) :
    x = .ok a ∧ (run s e).2.log = e.log ++ made := by
  obtain ⟨same, log⟩ | ⟨err, failed, -⟩ := gives.otherwise e
  · exact ⟨same.symm.trans ended, log⟩
  · rw [ended] at failed
    cases failed

theorem check : Gives (ofExcept x) [] x := by
  have run_check : ∀ e, run (ofExcept x) e = (x, e) := fun e => by cases x <;> rfl
  exact ⟨fun e accepts => ⟨e, run_check e, (List.append_nil _).symm, accepts⟩,
    fun e => .inl (by rw [run_check, List.append_nil]; exact ⟨rfl, rfl⟩)⟩

theorem pure : Gives (pure a) [] (.ok a) := check (x := .ok a)

theorem throw : Gives (throw err : Session α) [] (.error err) := check (x := .error err)

/-- What follows is not begun after an error. -/
theorem andThen (first : Gives s made x)
    (rest : match x with
      | .ok a => Gives (f a) more y
      | .error err => more = [] ∧ y = .error err) : Gives (s >>= f) (made ++ more) y := by
  refine ⟨fun e accepts => ?_, fun e => ?_⟩
  · obtain ⟨e', ended, log, accepts'⟩ := first.accepted e accepts
    rw [run_bind, ended]
    cases x with
    | ok a =>
      obtain ⟨e'', ended', log', accepts''⟩ := rest.accepted e' accepts'
      exact ⟨e'', ended', by rw [log', log, List.append_assoc], accepts''⟩
    | error err =>
      obtain ⟨rfl, rfl⟩ := rest
      exact ⟨e', rfl, by rw [log, List.append_nil], accepts'⟩
  · rw [run_bind]
    generalize same : run s e = r
    obtain ⟨r, e'⟩ := r
    obtain ⟨ended, log⟩ | ⟨err, ended, brought⟩ := same ▸ first.otherwise e
    · obtain rfl := ended
      cases r with
      | ok a =>
        obtain ⟨ended, log'⟩ | failed := rest.otherwise e'
        · exact .inl ⟨ended, by rw [log', log, List.append_assoc]⟩
        · exact .inr failed
      | error err =>
        obtain ⟨rfl, rfl⟩ := rest
        exact .inl ⟨rfl, by rw [log, List.append_nil]⟩
    · obtain rfl := ended
      exact .inr ⟨err, rfl, brought⟩

theorem bind (first : Gives s made (.ok a)) (rest : Gives (f a) more y) :
    Gives (s >>= f) (made ++ more) y :=
  first.andThen rest

theorem stop (first : Gives s made (.error err)) : Gives (s >>= f) made (.error err) := by
  simpa using first.andThen (f := f) ⟨rfl, rfl⟩

/-- A check that succeeds, and what follows it. -/
theorem checked (rest : Gives (f a) more y) :
    Gives ((ofExcept (.ok a) : Session α) >>= f) more y :=
  (check (x := .ok a)).bind rest

/-- A request that the engine accepts or fails with an error of its own. -/
theorem request {r : Request} {failure : String → DatabaseError}
    (brought : ∀ reason, ¬(failure reason).Foreseen) : Gives (request r failure) [r] (.ok ()) := by
  constructor
  · rintro ⟨_ | ⟨reason | _ | _, rest⟩, log⟩ accepts
    · exact ⟨_, rfl, rfl, accepts⟩
    · exact absurd (List.mem_cons_self ..) (accepts reason)
    · exact ⟨_, rfl, rfl, accepts⟩
    · exact ⟨_, rfl, rfl, accepts⟩
  · rintro ⟨_ | ⟨_ | _ | _, rest⟩, log⟩
    · exact .inl ⟨rfl, rfl⟩
    · exact .inr ⟨_, rfl, brought _⟩
    · exact .inl ⟨rfl, rfl⟩
    · exact .inl ⟨rfl, rfl⟩

/-- The number of rows that a statement changed is no request. -/
theorem affected {rest : Session β} (h : Gives rest more y) :
    Gives ((modifyGet takeAffected : Session Nat) >>= fun _ => rest) more y := by
  refine ⟨fun e accepts => ?_, fun e => ?_⟩
  · rw [run_bind]
    obtain ⟨_ | ⟨_ | _ | _, rest⟩, log⟩ := e
    · exact h.accepted _ accepts
    · exact h.accepted _ accepts
    · exact h.accepted _ (Engine.accepts_tail accepts)
    · exact h.accepted _ accepts
  · rw [run_bind]
    obtain ⟨_ | ⟨_ | _ | _, replies⟩, log⟩ := e <;> exact h.otherwise _

theorem execute {sql : String} {rest : Session β} (h : Gives rest more y) :
    Gives (Session.execute sql >>= fun _ => rest) (.execute sql :: more) y := by
  rw [Session.execute, bind_assoc]
  exact (request fun _ => id).bind h.affected

theorem prepare {sql : String} {rest : Session β} (h : Gives rest more y) :
    Gives (Session.prepare sql >>= fun _ => rest) (.prepare sql :: more) y :=
  (request fun _ => DatabaseError.not_foreseen_ofReason).bind h

theorem runPrepared {parameters : List Cell} :
    Gives (Session.runPrepared parameters) [.run parameters] (.ok ()) :=
  request fun _ => DatabaseError.not_foreseen_ofReason

theorem forM {γ : Type} {l : List γ} {f : γ → Session Unit} {made : γ → List Request}
    (each : ∀ c ∈ l, Gives (f c) (made c) (.ok ())) :
    Gives (l.forM f) (l.flatMap made) (.ok ()) := by
  induction l with
  | nil => exact pure
  | cons c l ih =>
    exact (each c (List.mem_cons_self ..)).bind (ih fun d hd => each d (List.mem_cons_of_mem _ hd))

end Gives

/-! ## Creating a table -/

/-- The requests that create a table and fill it. -/
def creation (name : String) (t : Table) (definitions : List String) (replace : Bool) :
    List Request :=
  .execute (createStatement name definitions replace) ::
    if t.numRows = 0 then []
    else .prepare (insertStatement name t.numColumns) ::
      t.rows.map fun row => .run (row.map Cell.ofValue)

section
variable {name : String} {t : Table} {definitions : List String} {replace : Bool}

/-- A table whose columns can be declared is created and filled. -/
theorem gives_createTable (declared : t.columns.mapM definition = .ok definitions) :
    Gives (createTable name t replace) (creation name t definitions replace) (.ok ()) := by
  unfold createTable creation
  rw [declared]
  refine .checked (.execute ?_)
  by_cases empty : t.numRows = 0
  · simpa [empty] using Gives.pure
  · rw [if_pos empty, if_neg empty]
    refine .prepare ?_
    rw [List.map_eq_flatMap]
    exact .forM fun row _ => .runPrepared

/-- Without a declaration for one of its columns nothing is done. -/
theorem gives_createTable_error (undeclared : t.columns.mapM definition = .error err) :
    Gives (createTable name t replace) [] (.error err) := by
  unfold createTable
  rw [undeclared]
  exact .stop .check

end

end Session

end Database

end TableFlow
