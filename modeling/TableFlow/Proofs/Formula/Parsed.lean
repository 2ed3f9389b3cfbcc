import TableFlow.Proofs.Formula.Printing
import TableFlow.Proofs.Formula.Tandem

/-!
# Parsed formulas

Whatever is parsed is spelled: it uses columns of the scope, its operators have two
arguments, and its functions have names that are words (`parse_spelled`). A reading keeps
this of its formulas, and of the tokens that it leaves that their words are words
(`spelled_kept`).
-/

namespace TableFlow.Formula

def Words (ts : Tokens) : Prop := ∀ t ∈ ts, ∀ s, t.token = .word s → IsWord s

variable {scope : Scope} {ts : Tokens}

theorem Words.tail (h : Words ts) : Words ts.tail :=
  fun t ht => h t (List.mem_of_mem_tail ht)

theorem Words.peek {s : String} (h : Words ts) (word : peek ts = .word s) : IsWord s := by
  cases ts with
  | nil => cases word
  | cons t ts => exact h t (List.mem_cons_self ..) s word

theorem resolve_spelled {name : String} :
    Ends (scope.resolve name) (Spelled scope.columns) fun _ => True := by
  unfold Scope.resolve
  split
  · rename_i known
    exact Spelled.column (by simpa using known)
  · split
    · exact Spelled.constant
    · trivial

theorem spelled_kept : Kept scope scope (Spelled scope.columns) Words where
  tail := Words.tail
  constant := .constant
  resolved _ _ := ⟨rfl, resolve_spelled⟩
  binary := .binary
  not spelled := .call (by decide) (by simpa using spelled)
  call words first each := .call (words.peek first) each

/-- What is parsed is spelled. -/
theorem parse_spelled {source : String} {e : Formula} (h : parse source scope = .ok e) :
    Spelled scope.columns e :=
  (spelled_kept.parse fun _ => scan_words).2.of_eq_ok h

end TableFlow.Formula
