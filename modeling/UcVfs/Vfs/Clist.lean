import UcVfs.Framework.Ring

/-!
# The intrusive circular list

`clist.h` keeps a list as a head cell whose `next` is the last node; the nodes form one
cycle. The operations act on the `next` fields. `Clist.Repr` relates a head and its heap to
the sequence of nodes, first to last.
-/

namespace UcVfs

open Framework

variable {α : Type}

/-- A head cell and the heap of `next` fields of the nodes. Only `head` is `list->next`. -/
structure Clist (α : Type) where
  head : Option α
  next : α → Option α

namespace Clist

/-- The head and the heap stand for the sequence `xs`, first node to last. -/
structure Repr (l : Clist α) (xs : List α) : Prop where
  head : l.head = xs.getLast?
  ring : Ring l.next xs

theorem Repr.nodup {l : Clist α} {xs : List α} (h : l.Repr xs) : xs.Nodup := h.ring.nodup

theorem repr_nil {l : Clist α} (h : l.head = none) : l.Repr [] :=
  ⟨h,Ring.nil l.next⟩

/-- A head stands for one sequence only. -/
theorem Repr.head_eq_none {l : Clist α} {xs : List α} (h : l.Repr xs) :
    l.head = none ↔ xs = [] := by
  rw [h.head,List.getLast?_eq_none_iff]

theorem Repr.snoc {l : Clist α} {xs : List α} {last : α} (h : l.Repr xs)
    (hl : l.head = some last) : ∃ ys, xs = ys ++ [last] := by
  have hlast : xs.getLast? = some last := h.head.symm.trans hl
  exact List.getLast?_eq_some_iff.mp hlast

variable [DecidableEq α]

def setNext (l : Clist α) (node : α) (succ : Option α) : Clist α :=
  { l with next := Function.update l.next node succ }

@[simp] theorem setNext_head (l : Clist α) (node : α) (succ : Option α) :
    (l.setNext node succ).head = l.head := rfl

@[simp] theorem setNext_next (l : Clist α) (node : α) (succ : Option α) :
    (l.setNext node succ).next = Function.update l.next node succ := rfl

def rpush (l : Clist α) (newNode : α) : Clist α :=
  match l.head with
  | some last =>
    let l := l.setNext newNode (l.next last)
    let l := l.setNext last (some newNode)
    { l with head := some newNode }
  | none =>
    let l := l.setNext newNode (some newNode)
    { l with head := some newNode }

/-- The outer `none` is a null dereference. -/
def lpop (l : Clist α) : Option (Option α × Clist α) :=
  match l.head with
  | some last =>
    let first := l.next last
    if some last = first then
      some (first,{ l with head := none })
    else
      match first with
      | none => none
      | some f => some (first,l.setNext last (l.next f))
  | none => some (none,l)

/-- Body of the search: stop at the node whose successor is the one looked for. -/
def findBeforeBody (l : Clist α) (node : α) (_ : Unit) (pos : α) : Except α Unit :=
  if l.next pos = some node then .error pos else .ok ()

def findBefore (fuel : Nat) (l : Clist α) (node : α) : Option (Option α) :=
  match l.head with
  | none => some none
  | some last =>
    match walk l.next last (l.findBeforeBody node) fuel last () with
    | none => none
    | some (.error pos) => some (some pos)
    | some (.ok _) => some none

def find (fuel : Nat) (l : Clist α) (node : α) : Option (Option α) :=
  match l.findBefore fuel node with
  | none => none
  | some (some tmp) => some (l.next tmp)
  | some none => some none

def remove (fuel : Nat) (l : Clist α) (node : α) : Option (Option α × Clist α) :=
  match l.head with
  | none => some (none,l)
  | some last =>
    if l.next last = some node then
      l.lpop
    else
      match l.findBefore fuel node with
      | none => none
      | some none => some (none,l)
      | some (some tmp) =>
        match l.next tmp with
        | none => none
        | some succ =>
          let l := l.setNext tmp (l.next succ)
          some (some node,if some node = l.head then { l with head := some tmp } else l)

theorem Repr.rpush {l : Clist α} {xs : List α} {n : α} (h : l.Repr xs) (hn : n ∉ xs) :
    (l.rpush n).Repr (xs ++ [n]) := by
  obtain ⟨hh,hr⟩ := h
  rcases List.eq_nil_or_concat xs with rfl | ⟨ys,z,rfl⟩
  · have hhead : l.head = none := hh
    simp only [Clist.rpush,hhead]
    exact ⟨rfl,Ring.singleton l.next n⟩
  · rw [List.concat_eq_append] at hh hr hn
    have hhead : l.head = some z := by simpa using hh
    simp only [Clist.rpush,hhead]
    refine ⟨by simp,?_⟩
    have hi := hr.insert hn
    simpa using hi

private theorem findBefore_fold (l : Clist α) (node : α) (xs : List α) :
    (∀ p ∈ xs, l.next p ≠ some node) ∧ xs.foldlM (l.findBeforeBody node) () = .ok () ∨
    ∃ p ∈ xs, l.next p = some node ∧ xs.foldlM (l.findBeforeBody node) () = .error p := by
  induction xs with
  | nil => exact Or.inl ⟨by simp,rfl⟩
  | cons a xs ih =>
    by_cases ha : l.next a = some node
    · refine Or.inr ⟨a,by simp,ha,?_⟩
      simp only [List.foldlM_cons,findBeforeBody,ha,if_true]
      rfl
    · have hstep : (a :: xs).foldlM (l.findBeforeBody node) () =
          xs.foldlM (l.findBeforeBody node) () := by
        simp only [List.foldlM_cons,findBeforeBody,ha,if_false]
        rfl
      rw [hstep]
      rcases ih with ⟨hno,hf⟩ | ⟨p,hp,hpn,hf⟩
      · exact Or.inl ⟨by simpa [ha] using hno,hf⟩
      · exact Or.inr ⟨p,by simp [hp],hpn,hf⟩

theorem Repr.findBefore {l : Clist α} {xs : List α} {fuel : Nat} (h : l.Repr xs)
    (hfuel : xs.length ≤ fuel) (n : α) :
    (n ∉ xs ∧ l.findBefore fuel n = some none) ∨
    ∃ p ∈ xs, l.next p = some n ∧ l.findBefore fuel n = some (some p) := by
  cases hl : l.head with
  | none =>
    obtain rfl := h.head_eq_none.mp hl
    exact Or.inl ⟨by simp,by simp [Clist.findBefore,hl]⟩
  | some last =>
    obtain ⟨ys,rfl⟩ := h.snoc hl
    simp only [Clist.findBefore,hl,h.ring.walk_eq (l.findBeforeBody n) fuel () hfuel]
    rcases findBefore_fold l n (ys ++ [last]) with ⟨hno,hf⟩ | ⟨p,hp,hpn,hf⟩
    · refine Or.inl ⟨fun hn => ?_,by rw [hf]⟩
      obtain ⟨p,hp,hpn⟩ := h.ring.exists_pred hn
      exact hno p hp hpn
    · exact Or.inr ⟨p,hp,hpn,by rw [hf]⟩

theorem Repr.find {l : Clist α} {xs : List α} {fuel : Nat} (h : l.Repr xs)
    (hfuel : xs.length ≤ fuel) (n : α) :
    l.find fuel n = some (if n ∈ xs then some n else none) := by
  rcases h.findBefore hfuel n with ⟨hn,hf⟩ | ⟨p,hp,hpn,hf⟩
  · simp only [Clist.find,hf,hn,if_false]
  · have hn := h.ring.next_mem hp hpn
    simp only [Clist.find,hf,hpn,hn,if_true]

theorem erase_middle {pre post : List α} {p n : α}
    (h : (pre ++ p :: n :: post).Nodup) :
    (pre ++ p :: n :: post).erase n = pre ++ p :: post := by
  have hd := List.nodup_append.mp h
  have hpre : n ∉ pre := fun hm => hd.2.2 n hm n (by simp) rfl
  have hpn : p ≠ n := by
    intro he
    exact (List.nodup_cons.mp hd.2.1).1 (by simp [he])
  rw [List.erase_append_right _ hpre,List.erase_cons_tail (by simpa using hpn),
    List.erase_cons_head]

/-- The predecessor search of `remove` finds the node before the one to unlink. -/
private theorem Repr.unlink {l : Clist α} {xs : List α} {p n last : α} (h : l.Repr xs)
    (hl : l.head = some last) (hfirst : l.next last ≠ some n) (hp : p ∈ xs)
    (hpn : l.next p = some n) :
    let l' := l.setNext p (l.next n)
    (if some n = l.head then { l' with head := some p } else l').Repr (xs.erase n) := by
  intro l'
  have hhead := h.head
  obtain ⟨pre,post,rfl⟩ := List.append_of_mem hp
  cases post with
  | nil =>
    have hlp : last = p := by simpa [hl] using hhead
    exact absurd (hlp ▸ hpn) hfirst
  | cons b post =>
    obtain rfl : b = n := by simpa using h.ring.next_of_split.symm.trans hpn
    rw [erase_middle h.nodup]
    have hring : Ring l'.next (pre ++ p :: post) := h.ring.unlink
    cases post with
    | nil =>
      have hlast : some b = l.head := by simpa using hhead.symm
      rw [if_pos hlast]
      exact ⟨by simp,hring⟩
    | cons c post =>
      have hne : some b ≠ l.head := by
        intro he
        have hmem : b ∈ c :: post := by
          refine List.mem_of_getLast? ?_
          simpa [List.getLast?_cons] using hhead.symm.trans he.symm
        have hnd := (List.nodup_append.mp h.nodup).2.1
        exact (List.nodup_cons.mp (List.nodup_cons.mp hnd).2).1 hmem
      rw [if_neg hne]
      exact ⟨by simpa [l',List.getLast?_cons] using hhead,hring⟩

theorem Repr.lpop {l : Clist α} {xs : List α} {n last : α} (h : l.Repr (n :: xs))
    (hl : l.head = some last) :
    ∃ l', l.lpop = some (some n,l') ∧ l'.Repr xs ∧ ∀ a ∉ xs, l'.next a = l.next a := by
  have hlast : last ∈ (n :: xs).getLast? := h.head.symm.trans hl
  have hn : l.next last = some n := h.ring.next_last hlast
  simp only [Clist.lpop,hl,hn]
  rcases List.eq_nil_or_concat xs with rfl | ⟨ys,z,rfl⟩
  · obtain rfl : n = last := by simpa using hlast
    simp only [if_true]
    exact ⟨_,rfl,repr_nil rfl,fun _ _ => rfl⟩
  · rw [List.concat_eq_append] at h hlast ⊢
    obtain rfl : z = last := by simpa [List.getLast?_cons] using hlast
    have hzn : z ≠ n := by
      intro he
      exact (List.nodup_cons.mp h.nodup).1 (by simp [he])
    have hne : some z ≠ some n := by simpa using hzn
    rw [if_neg hne]
    refine ⟨_,rfl,⟨by simpa using hl,h.ring.unlink_first⟩,?_⟩
    intro a ha
    have haz : a ≠ z := fun he => ha (by simp [he])
    exact Function.update_of_ne haz _ _

/-- Removal takes exactly the given node out, and leaves a list without it as it is. -/
theorem Repr.remove {l : Clist α} {xs : List α} {fuel : Nat} (h : l.Repr xs)
    (hfuel : xs.length ≤ fuel) (n : α) :
    (n ∉ xs ∧ l.remove fuel n = some (none,l)) ∨
    (n ∈ xs ∧ ∃ l', l.remove fuel n = some (some n,l') ∧ l'.Repr (xs.erase n)) := by
  cases hl : l.head with
  | none =>
    obtain rfl := h.head_eq_none.mp hl
    exact Or.inl ⟨by simp,by simp [Clist.remove,hl]⟩
  | some last =>
    by_cases hfirst : l.next last = some n
    · cases xs with
      | nil => simp [h.head] at hl
      | cons a xs =>
        have hlast : last ∈ (a :: xs).getLast? := h.head.symm.trans hl
        obtain rfl : a = n := by simpa using (h.ring.next_last hlast).symm.trans hfirst
        obtain ⟨l',hpop,hrep,_⟩ := h.lpop hl
        refine Or.inr ⟨by simp,l',?_,by simpa using hrep⟩
        simp only [Clist.remove,hl,hfirst,if_true,hpop]
    · rcases h.findBefore hfuel n with ⟨hn,hf⟩ | ⟨p,hp,hpn,hf⟩
      · exact Or.inl ⟨hn,by simp only [Clist.remove,hl,hfirst,if_false,hf]⟩
      · refine Or.inr ⟨h.ring.next_mem hp hpn,_,?_,h.unlink hl hfirst hp hpn⟩
        simp only [Clist.remove,hl,hfirst,if_false,hf,hpn,setNext_head]

end Clist

end UcVfs
