import Mathlib.Order.Basic

/-!
# Services that answer requests in the order of their times

A service is a function `serve : σ → ι → ο × σ` from a state and a request to the answer and
the next state. `answers` lists its answers to a list of requests. Two services answer alike
every list of requests whose times do not go back, when a relation that may mention the time
of the last request is kept by every request that is not earlier (`answers_eq`).
-/

namespace Service

variable {σ τ ι ο κ : Type*}

def answers (serve : σ → ι → ο × σ) : σ → List ι → List ο
  | _, [] => []
  | s, i :: is => (serve s i).1 :: answers serve (serve s i).2 is

/-- No request is earlier than one before it. -/
def InOrder [LE κ] (time : ι → κ) (is : List ι) : Prop := is.Pairwise fun i j => time i ≤ time j

variable [Preorder κ] {time : ι → κ} {R : κ → σ → τ → Prop}
variable {serve : σ → ι → ο × σ} {serve' : τ → ι → ο × τ}

theorem answers_eq_from {is : List ι}
    (hserve : ∀ i ∈ is, ∀ k s t, R k s t → k ≤ time i →
      (serve s i).1 = (serve' t i).1 ∧ R (time i) (serve s i).2 (serve' t i).2)
    (horder : InOrder time is) {k : κ} (hlast : ∀ i ∈ is, k ≤ time i) {s : σ} {t : τ} (h : R k s t) :
    answers serve s is = answers serve' t is := by
  induction is generalizing k s t with
  | nil => rfl
  | cons i is ih =>
    obtain ⟨hanswer, hnext⟩ := hserve i List.mem_cons_self k s t h (hlast i List.mem_cons_self)
    obtain ⟨hlater, horder⟩ := List.pairwise_cons.mp horder
    rw [answers, answers, hanswer, ih (fun j hj => hserve j (List.mem_cons_of_mem i hj)) horder hlater hnext]

/-- **Equal answers.** -/
theorem answers_eq {is : List ι}
    (hserve : ∀ i ∈ is, ∀ k s t, R k s t → k ≤ time i →
      (serve s i).1 = (serve' t i).1 ∧ R (time i) (serve s i).2 (serve' t i).2)
    (horder : InOrder time is) {s : σ} {t : τ} (h : ∀ k, R k s t) :
    answers serve s is = answers serve' t is := by
  cases is with
  | nil => rfl
  | cons i is =>
    apply answers_eq_from hserve horder (k := time i) _ (h (time i))
    intro j hj
    rcases List.mem_cons.mp hj with rfl | hj
    · exact le_refl _
    · exact (List.pairwise_cons.mp horder).1 j hj

end Service
