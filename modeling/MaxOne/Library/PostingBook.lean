import Mathlib.Tactic

/-!
# Books of postings

An entry carries the value its account had before it and the value it leaves.
A book keeps one value and one list of entries for each account, and its type
says that the entries of every account form an unbroken chain from the opening
value to the account's value. `post` is the only way to add an entry, and it
asks that the entry starts from the account's value.
-/
namespace Library.PostingBook

variable {K E B : Type*} (start finish : E → B)

/-- The entries lead from `opening` to the last argument. -/
def Chain (opening : B) : List E → B → Prop
  | [], b => b = opening
  | e :: es, b => start e = opening ∧ Chain (finish e) es b

variable {start finish} {opening b : B} {es : List E}

theorem Chain.snoc {e : E} (h : Chain start finish opening es b) (he : start e = b) :
    Chain start finish opening (es ++ [e]) (finish e) := by
  induction es generalizing opening with
  | nil => exact ⟨he.trans h, rfl⟩
  | cons x es ih => exact ⟨h.1, ih h.2⟩

theorem Chain.head {e : E} (h : Chain start finish opening es b) (he : es.head? = some e) :
    start e = opening := by
  cases es with
  | nil => cases he
  | cons x es =>
      rw [List.head?_cons, Option.some.injEq] at he
      exact he ▸ h.1

/-- Every later entry starts where the one before it ended. -/
theorem Chain.adjacent {x y : E} {before after : List E}
    (h : Chain start finish opening (before ++ x :: y :: after) b) : start y = finish x := by
  induction before generalizing opening with
  | nil => exact h.2.1
  | cons e before ih => exact ih h.2

theorem Chain.last (h : Chain start finish opening es b) :
    b = (es.getLast?.map finish).getD opening := by
  induction es using List.reverseRecOn generalizing b with
  | nil => exact h
  | append_singleton es e _ =>
      have hlast : ∀ {o : B} (us : List E), Chain start finish o (us ++ [e]) b → b = finish e := by
        intro o us hus
        induction us generalizing o with
        | nil => exact hus.2
        | cons u us ih => exact ih hus.2
      simpa using hlast es h

structure Book (K : Type*) (start finish : E → B) (opening : B) where
  balance : K → B
  postings : K → List E
  chained : ∀ k, Chain start finish opening (postings k) (balance k)

namespace Book

def empty : Book K start finish opening := ⟨fun _ => opening, fun _ => [], fun _ => rfl⟩

variable [DecidableEq K]

def post (book : Book K start finish opening) (k : K) (e : E)
    (h : start e = book.balance k) : Book K start finish opening where
  balance := Function.update book.balance k (finish e)
  postings := Function.update book.postings k (book.postings k ++ [e])
  chained := by
    intro k'
    by_cases hk : k' = k
    · subst hk
      simpa only [Function.update_self] using (book.chained k').snoc h
    · simpa only [Function.update_of_ne hk] using book.chained k'

variable {book : Book K start finish opening} {k : K} {e : E} {h : start e = book.balance k}

theorem post_balance (k' : K) :
    (book.post k e h).balance k' = if k' = k then finish e else book.balance k' := by
  simp only [post, Function.update_apply]

theorem post_postings (k' : K) :
    (book.post k e h).postings k' = book.postings k' ++ if k' = k then [e] else [] := by
  simp only [post, Function.update_apply]
  split_ifs with hk
  · rw [hk]
  · rw [List.append_nil]

end Book

end Library.PostingBook
