import Mathlib.Data.List.ReduceOption

/-!
# The MNIST reader of `PUs/IPU_vision.py`

`MNIST.__init__` creates the generator `read_mnist_raw()` and copies everything it yields into
`mnist_array`. `read_image(index)` iterates the same generator, counting from `tmp = 1` and
incrementing before it compares the count with `index`, and returns `(image, label)` of the item
where the count reaches `index`, or `None` once the generator is exhausted. A generator left by
`return` keeps the items after the one returned.
-/

namespace Feagi.Vision

structure MNIST (α β : Type) where
  /-- What the generator `mnist_iterator` has still to yield. -/
  mnistIterator : List (α × β)
  mnistArray : List (α × β)

namespace MNIST

variable {α β : Type}

/-- `for _ in self.mnist_iterator: self.mnist_array.append(_)`. -/
def drain : List (α × β) → List (α × β) → MNIST α β
  | [], mnistArray => ⟨[], mnistArray⟩
  | item :: mnistIterator, mnistArray => drain mnistIterator (mnistArray ++ [item])

/-- `MNIST.__init__` over the `(label, image)` pairs `read_mnist_raw` yields. -/
def init (dataset : List (α × β)) : MNIST α β := drain dataset []

/-- The loop of `read_image(index)` over what the generator has left, from the count `tmp`. -/
def readImageLoop (index : Int) : Int → List (α × β) → Option (β × α) × List (α × β)
  | _, [] => (none, [])
  | tmp, labeledImage :: imageDb =>
    if tmp + 1 = index then (some (labeledImage.2, labeledImage.1), imageDb)
    else readImageLoop index (tmp + 1) imageDb

/-- `MNIST.read_image`. -/
def readImage (self : MNIST α β) (index : Int) : Option (β × α) × MNIST α β :=
  let result := readImageLoop index 1 self.mnistIterator
  (result.1, { self with mnistIterator := result.2 })

/-- Successive `read_image` calls. -/
def readImages (self : MNIST α β) : List Int → List (Option (β × α)) × MNIST α β
  | [] => ([], self)
  | index :: indices =>
    let first := self.readImage index
    let rest := first.2.readImages indices
    (first.1 :: rest.1, rest.2)

theorem drain_eq : ∀ (mnistIterator mnistArray : List (α × β)),
    drain mnistIterator mnistArray = ⟨[], mnistArray ++ mnistIterator⟩
  | [], _ => by simp [drain]
  | item :: mnistIterator, mnistArray => by simp [drain, drain_eq mnistIterator]

theorem init_eq (dataset : List (α × β)) : init dataset = ⟨[], dataset⟩ := by
  simp [init, drain_eq]

theorem readImageLoop_spec (index : Int) :
    ∀ (tmp : Int) (items : List (α × β)),
      readImageLoop index tmp items =
        if tmp < index ∧ index - tmp ≤ items.length then
          ((items[(index - tmp - 1).toNat]?).map fun item => (item.2, item.1),
            items.drop (index - tmp).toNat)
        else (none, [])
  | tmp, [] => by simp [readImageLoop]
  | tmp, item :: items => by
    rw [readImageLoop, readImageLoop_spec index (tmp + 1) items]
    by_cases reached : tmp + 1 = index
    · subst reached
      simp only [if_true, show tmp + 1 - tmp = 1 by omega, List.length_cons]
      rw [if_pos (by omega)]
      simp
    · rw [if_neg reached]
      by_cases later : tmp + 1 < index
      · rw [show (index - tmp - 1).toNat = (index - (tmp + 1) - 1).toNat + 1 by omega,
          show (index - tmp).toNat = (index - (tmp + 1)).toNat + 1 by omega]
        simp only [List.getElem?_cons_succ, List.drop_succ_cons, List.length_cons]
        split_ifs <;> first | rfl | omega
      · rw [if_neg (by omega), if_neg (by omega)]

theorem readImages_after_init (dataset : List (α × β)) (indices : List Int) :
    (init dataset).mnistArray = dataset ∧
      (init dataset).readImages indices = (indices.map fun _ => none, init dataset) := by
  rw [init_eq]
  refine ⟨rfl, ?_⟩
  induction indices with
  | nil => rfl
  | cons index indices ih => simp [readImages, readImage, readImageLoop, ih]

theorem readImage_index (self : MNIST α β) (index : Int) :
    (self.readImage index).1 = if 2 ≤ index ∧ index - 1 ≤ self.mnistIterator.length then
      (self.mnistIterator[(index - 2).toNat]?).map (fun item => (item.2, item.1)) else none := by
  simp only [readImage, readImageLoop_spec, show index - 1 - 1 = index - 2 by omega]
  split_ifs <;> first | rfl | omega

theorem readImage_cases (self : MNIST α β) (index : Int) :
    ((self.readImage index).1 = none ∧ (self.readImage index).2.mnistIterator = []) ∨
      ∃ k, ∃ h : k < self.mnistIterator.length,
        (self.readImage index).1 = some (self.mnistIterator[k].2, self.mnistIterator[k].1) ∧
        (self.readImage index).2.mnistIterator = self.mnistIterator.drop (k + 1) := by
  simp only [readImage, readImageLoop_spec]
  split_ifs with within
  · refine .inr ⟨(index - 1 - 1).toNat, by omega, ?_, ?_⟩
    · rw [List.getElem?_eq_getElem (by omega), Option.map_some']
    · simp only [show (index - 1).toNat = (index - 1 - 1).toNat + 1 by omega]
  · exact .inl ⟨rfl, rfl⟩

theorem readImages_sublist (self : MNIST α β) (indices : List Int) :
    ((self.readImages indices).1.reduceOption.map Prod.swap ++
        (self.readImages indices).2.mnistIterator).Sublist self.mnistIterator ∧
      (self.readImages indices).2.mnistArray = self.mnistArray := by
  induction indices generalizing self with
  | nil => exact ⟨by simp [readImages], rfl⟩
  | cons index indices ih =>
    obtain ⟨later, array⟩ := ih (self.readImage index).2
    refine ⟨?_, array⟩
    simp only [readImages]
    rcases readImage_cases self index with ⟨none, exhausted⟩ | ⟨k, h, item, rest⟩
    · rw [none, List.reduceOption_cons_of_none]
      rw [exhausted] at later
      exact later.trans (List.nil_sublist _)
    · rw [item, List.reduceOption_cons_of_some, List.map_cons, List.cons_append]
      rw [rest] at later
      have first : (self.mnistIterator[k] :: self.mnistIterator.drop (k + 1)).Sublist
          self.mnistIterator := List.getElem_cons_drop _ k h ▸ List.drop_sublist _ _
      exact (later.cons₂ self.mnistIterator[k]).trans first

end MNIST

end Feagi.Vision
