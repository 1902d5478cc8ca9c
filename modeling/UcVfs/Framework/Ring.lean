import Mathlib.Data.List.Chain
import Mathlib.Data.List.Nodup
import Mathlib.Logic.Function.Basic

/-!
# Circular successor lists

A ring is a list of distinct nodes such that following a successor map from its last node
visits the list in order and comes back. The module gives the updates that insert a node into
a ring and unlink one, and the walk that a do-while loop makes around it.
-/

namespace UcVfs.Framework

variable {α β ε : Type}

/-- `next` leads from `a` to `b`. -/
def Links (next : α → Option α) (a b : α) : Prop := next a = some b

/-- The successor map closes `xs` into one cycle: the last node leads to the first. -/
structure Ring (next : α → Option α) (xs : List α) : Prop where
  nodup : xs.Nodup
  chain : xs.IsChain (Links next)
  wrap : ∀ z ∈ xs.getLast?, ∀ a ∈ xs.head?, Links next z a

theorem Ring.nil (next : α → Option α) : Ring next [] :=
  ⟨List.nodup_nil,by simp,by simp⟩

theorem links_congr {next next' : α → Option α} {xs : List α}
    (hsame : ∀ a ∈ xs, next' a = next a) (h : xs.IsChain (Links next)) :
    xs.IsChain (Links next') := by
  refine h.imp_of_mem_imp ?_
  intro a b ha _ hab
  exact (hsame a ha).trans hab

/-- A ring only depends on the successors of its own nodes. -/
theorem Ring.congr {next next' : α → Option α} {xs : List α}
    (hsame : ∀ a ∈ xs, next' a = next a) (h : Ring next xs) : Ring next' xs := by
  refine ⟨h.nodup,links_congr hsame h.chain,?_⟩
  intro z hz a ha
  exact (hsame z (List.mem_of_getLast? hz)).trans (h.wrap z hz a ha)

/-- A cycle may be read starting from any of its nodes. -/
theorem Ring.rotate {next : α → Option α} {xs ys : List α}
    (h : Ring next (xs ++ ys)) : Ring next (ys ++ xs) := by
  obtain ⟨hn,hc,hw⟩ := h
  rw [List.isChain_append] at hc
  refine ⟨List.nodup_append_comm.mp hn,?_,?_⟩
  · rw [List.isChain_append]
    refine ⟨hc.2.1,hc.1,?_⟩
    intro z hz a ha
    exact hw z (by simp [List.getLast?_append,Option.mem_def.mp hz]) a
      (by simp [List.head?_append,Option.mem_def.mp ha])
  · intro z hz a ha
    rw [List.getLast?_append] at hz
    rw [List.head?_append] at ha
    cases xs with
    | nil =>
      cases ys with
      | nil => simp at ha
      | cons b ys => exact hw z (by simpa using hz) a (by simpa using ha)
    | cons c xs =>
      cases ys with
      | nil => exact hw z (by simpa using hz) a (by simpa using ha)
      | cons b ys =>
        exact hc.2.2 z (by simpa [List.getLast?_cons] using hz) a (by simpa using ha)

/-- The ring read from its last node and back to it. -/
theorem Ring.closed {next : α → Option α} {xs : List α} {z : α}
    (h : Ring next (xs ++ [z])) : (z :: (xs ++ [z])).IsChain (Links next) := by
  refine h.chain.cons ?_
  intro a ha
  exact h.wrap z (by simp) a ha

theorem Ring.last_not_mem {next : α → Option α} {xs : List α} {z : α}
    (h : Ring next (xs ++ [z])) : z ∉ xs :=
  (List.nodup_cons.mp h.rotate.nodup).1

theorem Ring.next_of_split {next : α → Option α} {pre post : List α} {a b : α}
    (h : Ring next (pre ++ a :: b :: post)) : next a = some b := by
  have hc := (List.isChain_append.mp h.chain).2.1
  exact (List.isChain_cons_cons.mp hc).1

theorem Ring.next_last {next : α → Option α} {xs : List α} {a z : α}
    (h : Ring next (a :: xs)) (hz : z ∈ (a :: xs).getLast?) : next z = some a :=
  h.wrap z hz a (by simp)

/-- Every node of a ring has its successor in the ring. -/
theorem Ring.next_mem {next : α → Option α} {xs : List α} {a b : α}
    (h : Ring next xs) (ha : a ∈ xs) (hb : next a = some b) : b ∈ xs := by
  obtain ⟨pre,post,rfl⟩ := List.append_of_mem ha
  cases post with
  | cons c post =>
    obtain rfl : c = b := by simpa using h.next_of_split.symm.trans hb
    simp
  | nil =>
    have hr : Ring next (a :: pre) := h.rotate
    cases pre with
    | nil =>
      obtain rfl : a = b := by simpa using (hr.next_last (by simp)).symm.trans hb
      simp
    | cons c pre =>
      have hac : next a = some c := Ring.next_of_split (show Ring next ([] ++ a :: c :: pre) from hr)
      obtain rfl : c = b := by simpa using hac.symm.trans hb
      simp

/-- Every node of a ring is the successor of a node of the ring. -/
theorem Ring.exists_pred {next : α → Option α} {xs : List α} {b : α}
    (h : Ring next xs) (hb : b ∈ xs) : ∃ a ∈ xs, next a = some b := by
  obtain ⟨pre,post,rfl⟩ := List.append_of_mem hb
  have hr : Ring next (b :: (post ++ pre)) := h.rotate
  obtain ⟨z,hz⟩ : ∃ z, z ∈ (b :: (post ++ pre)).getLast? :=
    ⟨_,List.getLast?_eq_some_getLast (List.cons_ne_nil _ _)⟩
  refine ⟨z,?_,hr.next_last hz⟩
  have hmem := List.mem_of_getLast? hz
  simp only [List.mem_cons,List.mem_append] at hmem ⊢
  tauto

/-- The nodes of a ring have one successor each. -/
theorem Ring.next_unique {next next' : α → Option α} {xs : List α} {a : α}
    (h : Ring next xs) (h' : Ring next' xs) (ha : a ∈ xs) : next' a = next a := by
  obtain ⟨pre,post,rfl⟩ := List.append_of_mem ha
  cases post with
  | cons b post => rw [h.next_of_split,h'.next_of_split]
  | nil =>
    cases pre with
    | nil => rw [h.next_last (by simp),h'.next_last (by simp)]
    | cons b pre =>
      have hz : a ∈ (b :: (pre ++ [a])).getLast? := by simp [List.getLast?_cons]
      rw [Ring.next_last h hz,Ring.next_last h' hz]

section Update

variable [DecidableEq α]

theorem Ring.singleton (next : α → Option α) (n : α) :
    Ring (Function.update next n (some n)) [n] := by
  refine ⟨List.nodup_singleton n,by simp,?_⟩
  intro z hz a ha
  obtain rfl : n = z := by simpa using hz
  obtain rfl : n = a := by simpa using ha
  exact Function.update_self ..

private theorem Ring.insert_head {next : α → Option α} {xs : List α} {z n : α}
    (h : Ring next (z :: xs)) (hn : n ∉ z :: xs) :
    Ring (Function.update (Function.update next n (next z)) z (some n)) (z :: n :: xs) := by
  let next' := Function.update (Function.update next n (next z)) z (some n)
  have hnz : n ≠ z := fun he => hn (by simp [he])
  have hnxs : n ∉ xs := fun hm => hn (by simp [hm])
  have hzxs : z ∉ xs := (List.nodup_cons.mp h.nodup).1
  have hz : next' z = some n := Function.update_self ..
  have hn' : next' n = next z := by simp [next',hnz]
  have hkeep : ∀ a ∈ xs, next' a = next a := by
    intro a ha
    have haz : a ≠ z := fun he => hzxs (he ▸ ha)
    have han : a ≠ n := fun he => hnxs (he ▸ ha)
    simp [next',haz,han]
  refine ⟨?_,?_,?_⟩
  · have hxs := (List.nodup_cons.mp h.nodup).2
    exact List.nodup_cons.mpr ⟨by simp [Ne.symm hnz,hzxs],List.nodup_cons.mpr ⟨hnxs,hxs⟩⟩
  · have hx := links_congr hkeep h.chain.tail
    refine List.isChain_cons_cons.mpr ⟨hz,hx.cons ?_⟩
    intro a ha
    exact hn'.trans (h.chain.rel_head? ha)
  · intro y hy a ha
    obtain rfl : z = a := by simpa using ha
    cases xs with
    | nil =>
      obtain rfl : n = y := by simpa using hy
      exact hn'.trans (h.wrap z (by simp) z (by simp))
    | cons b xs =>
      have hy' : y ∈ (b :: xs).getLast? := by simpa [List.getLast?_cons] using hy
      exact (hkeep y (List.mem_of_getLast? hy')).trans
        (h.wrap y (by simpa [List.getLast?_cons] using hy) z (by simp))

/-- Linking a new node between `z` and its successor inserts it into the ring. -/
theorem Ring.insert {next : α → Option α} {pre post : List α} {z n : α}
    (h : Ring next (pre ++ z :: post)) (hn : n ∉ pre ++ z :: post) :
    Ring (Function.update (Function.update next n (next z)) z (some n))
      (pre ++ z :: n :: post) := by
  have hr : Ring next (z :: (post ++ pre)) := h.rotate
  have hnr : n ∉ z :: (post ++ pre) := by
    simp only [List.mem_cons,List.mem_append,not_or] at hn ⊢
    tauto
  have hi : Ring _ ((z :: n :: post) ++ pre) := hr.insert_head hnr
  exact hi.rotate

private theorem Ring.unlink_head {next : α → Option α} {xs : List α} {p n : α}
    (h : Ring next (p :: n :: xs)) : Ring (Function.update next p (next n)) (p :: xs) := by
  have hp := List.nodup_cons.mp h.nodup
  have hpxs : p ∉ xs := fun hm => hp.1 (by simp [hm])
  have hself : Function.update next p (next n) p = next n := Function.update_self ..
  have hkeep : ∀ a ∈ xs, Function.update next p (next n) a = next a := by
    intro a ha
    have hap : a ≠ p := fun he => hpxs (he ▸ ha)
    exact Function.update_of_ne hap _ _
  refine ⟨List.nodup_cons.mpr ⟨hpxs,(List.nodup_cons.mp hp.2).2⟩,?_,?_⟩
  · refine (links_congr hkeep h.chain.tail.tail).cons ?_
    intro a ha
    exact hself.trans (h.chain.tail.rel_head? ha)
  · intro z hz a ha
    obtain rfl : p = a := by simpa using ha
    cases xs with
    | nil =>
      obtain rfl : p = z := by simpa using hz
      exact hself.trans (h.wrap n (by simp) p (by simp))
    | cons b xs =>
      have hz' : z ∈ (b :: xs).getLast? := by simpa [List.getLast?_cons] using hz
      exact (hkeep z (List.mem_of_getLast? hz')).trans
        (h.wrap z (by simpa [List.getLast?_cons] using hz) p (by simp))

/-- Letting the predecessor of a node skip it removes the node from the ring. -/
theorem Ring.unlink {next : α → Option α} {pre post : List α} {p n : α}
    (h : Ring next (pre ++ p :: n :: post)) :
    Ring (Function.update next p (next n)) (pre ++ p :: post) := by
  have hr : Ring next (p :: n :: (post ++ pre)) := h.rotate
  have hu : Ring _ ((p :: post) ++ pre) := hr.unlink_head
  exact hu.rotate

/-- The same removal when the node is the first one and its predecessor the last. -/
theorem Ring.unlink_first {next : α → Option α} {xs : List α} {z n : α}
    (h : Ring next (n :: (xs ++ [z]))) :
    Ring (Function.update next z (next n)) (xs ++ [z]) := by
  have hr : Ring next ((n :: xs) ++ [z]) := h
  have hu : Ring _ ([z] ++ xs) := hr.rotate.unlink_head
  exact hu.rotate

end Update

/-- One round of a do-while loop that advances first: `do { pos = pos->next; body } while
(pos != stop)`. The outer `none` is a null successor or an exhausted bound. -/
def walk [DecidableEq α] (next : α → Option α) (stop : α) (body : β → α → Except ε β) :
    Nat → α → β → Option (Except ε β)
  | 0, _, _ => none
  | fuel + 1, pos, acc =>
    match next pos with
    | none => none
    | some pos =>
      match body acc pos with
      | .error e => some (.error e)
      | .ok acc => if pos = stop then some (.ok acc) else walk next stop body fuel pos acc

private theorem foldlM_cons_error (body : β → α → Except ε β) {acc : β} {a : α} {e : ε}
    (xs : List α) (h : body acc a = .error e) : (a :: xs).foldlM body acc = .error e := by
  rw [List.foldlM_cons,h]
  rfl

private theorem foldlM_cons_ok (body : β → α → Except ε β) {acc acc' : β} {a : α}
    (xs : List α) (h : body acc a = .ok acc') :
    (a :: xs).foldlM body acc = xs.foldlM body acc' := by
  rw [List.foldlM_cons,h]
  rfl

theorem walk_chain [DecidableEq α] {next : α → Option α} (body : β → α → Except ε β)
    {xs : List α} {p z : α} (fuel : Nat) (acc : β)
    (hc : (p :: (xs ++ [z])).IsChain (Links next)) (hz : z ∉ xs) (hfuel : xs.length < fuel) :
    walk next z body fuel p acc = some ((xs ++ [z]).foldlM body acc) := by
  induction xs generalizing p fuel acc with
  | nil =>
    obtain ⟨fuel,rfl⟩ := Nat.exists_eq_succ_of_ne_zero (Nat.ne_of_gt hfuel)
    have hp : next p = some z := by simpa [Links] using hc
    simp only [walk,hp,List.nil_append]
    cases hb : body acc z with
    | error e => rw [foldlM_cons_error body _ hb]
    | ok acc' => rw [foldlM_cons_ok body _ hb]; simp; rfl
  | cons a xs ih =>
    obtain ⟨fuel,rfl⟩ := Nat.exists_eq_succ_of_ne_zero (Nat.ne_of_gt (Nat.zero_lt_of_lt hfuel))
    rw [List.cons_append,List.isChain_cons_cons] at hc
    have hp : next p = some a := hc.1
    have haz : a ≠ z := fun he => hz (by simp [he])
    simp only [walk,hp,List.cons_append]
    cases hb : body acc a with
    | error e => rw [foldlM_cons_error body _ hb]
    | ok acc' =>
      rw [foldlM_cons_ok body _ hb]
      simp only [haz,if_false]
      exact ih fuel acc' hc.2 (fun hm => hz (by simp [hm])) (by simpa using hfuel)

/-- A full round visits the nodes of the ring in order, each once. -/
theorem Ring.walk_eq [DecidableEq α] {next : α → Option α} {xs : List α} {z : α}
    (h : Ring next (xs ++ [z])) (body : β → α → Except ε β) (fuel : Nat) (acc : β)
    (hfuel : (xs ++ [z]).length ≤ fuel) :
    walk next z body fuel z acc = some ((xs ++ [z]).foldlM body acc) := by
  rw [List.length_append,List.length_singleton] at hfuel
  exact walk_chain body fuel acc h.closed h.last_not_mem hfuel

end UcVfs.Framework
