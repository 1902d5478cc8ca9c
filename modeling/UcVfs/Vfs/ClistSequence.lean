import Mathlib.Data.List.Rotate
import UcVfs.Vfs.Clist

/-!
# The circular list as a sequence

The remaining operations of `clist.h`, and what all of them do to the sequence of nodes. The
memory outside the nodes of a list may hold anything: no operation looks at it.
-/

namespace UcVfs

open Framework

namespace Clist

variable {α σ ρ : Type} [DecidableEq α]

def isEmpty (l : Clist α) : Bool := l.head = none

def lpush (l : Clist α) (newNode : α) : Clist α :=
  match l.head with
  | some last =>
    let l := l.setNext newNode (l.next last)
    l.setNext last (some newNode)
  | none =>
    let l := l.setNext newNode (some newNode)
    { l with head := some newNode }

def lpoprpush (l : Clist α) : Clist α :=
  match l.head with
  | some last => { l with head := l.next last }
  | none => l

def lpeek (l : Clist α) : Option α :=
  match l.head with
  | some last => l.next last
  | none => none

def rpeek (l : Clist α) : Option α := l.head

/-- `while (list->next->next != last) clist_lpoprpush(list)`. -/
def rotateTo (last : α) : Nat → Clist α → Option (Clist α)
  | 0,_ => none
  | fuel + 1,l =>
    match l.head with
    | none => none
    | some cur => if l.next cur ≠ some last then rotateTo last fuel l.lpoprpush else some l

def rpop (fuel : Nat) (l : Clist α) : Option (Option α × Clist α) :=
  match l.head with
  | some last =>
    match rotateTo last fuel l with
    | none => none
    | some l => l.lpop
  | none => some (none,l)

/-- Body of the loop that calls `func`, whose `arg` points to an `s`. -/
def foreachBody (func : α → σ → Int × σ) (s : σ) (node : α) : Except (α × σ) σ :=
  let (res,s) := func node s
  if res ≠ 0 then .error (node,s) else .ok s

/-- Returns what is left behind `arg` as well. -/
def foreach (fuel : Nat) (l : Clist α) (func : α → σ → Int × σ) (s : σ) :
    Option (Option α × σ) :=
  match l.head with
  | none => some (none,s)
  | some last =>
    match walk l.next last (foreachBody func) fuel last s with
    | none => none
    | some (.error (node,s)) => some (some node,s)
    | some (.ok s) => some (none,s)

def count (fuel : Nat) (l : Clist α) : Option Nat :=
  match l.head with
  | none => some 0
  | some last =>
    match walk l.next last (fun cnt _ => (.ok (cnt + 1) : Except Empty Nat)) fuel last 0 with
    | some (.ok cnt) => some cnt
    | _ => none

def exactlyOne (l : Clist α) : Bool :=
  !l.isEmpty && (match l.head with
    | some last => l.head == l.next last
    | none => false)

def moreThanOne (l : Clist α) : Bool :=
  !l.isEmpty && (match l.head with
    | some last => l.head != l.next last
    | none => false)

/-- The list in a memory that holds something else outside `nodes`. -/
def within (l : Clist α) (nodes : List α) (other : α → Option α) : Clist α where
  head := l.head
  next a := if a ∈ nodes then l.next a else other a

theorem within_next (l : Clist α) (nodes : List α) (other : α → Option α) (a : α) :
    (l.within nodes other).next a = if a ∈ nodes then l.next a else other a := rfl

/-- `op` ends, returns `r` and makes a list that stands for `ys`. Whatever is outside `nodes`, it
does the same and leaves that as it is. -/
def Acts (op : Clist α → Option (ρ × Clist α)) (nodes : List α) (l : Clist α) (r : ρ)
    (ys : List α) : Prop :=
  ∃ l',op l = some (r,l') ∧ l'.Repr ys ∧
    ∀ other,op (l.within nodes other) = some (r,l'.within nodes other)

theorem Repr.within {l : Clist α} {xs nodes : List α} (h : l.Repr xs)
    (hsub : ∀ a ∈ xs,a ∈ nodes) (other : α → Option α) : (l.within nodes other).Repr xs := by
  refine ⟨h.head,Ring.congr ?_ h.ring⟩
  intro a ha
  exact if_pos (hsub a ha)

/-- It is enough to know what an operation makes of any list that stands for `xs`, and that the
nodes it leaves out keep their successors. -/
theorem acts_of_repr {op : Clist α → Option (ρ × Clist α)} {nodes xs ys : List α} {r : ρ}
    (hop : ∀ l : Clist α,l.Repr xs →
      ∃ l',op l = some (r,l') ∧ l'.Repr ys ∧ ∀ a ∉ ys,l'.next a = l.next a)
    (hxs : ∀ a ∈ xs,a ∈ nodes) (hys : ∀ a ∈ ys,a ∈ nodes) {l : Clist α} (h : l.Repr xs) :
    Acts op nodes l r ys := by
  obtain ⟨l',hl',hrep',hkeep'⟩ := hop l h
  refine ⟨l',hl',hrep',?_⟩
  intro other
  obtain ⟨m,hm,hrepm,hkeepm⟩ := hop _ (h.within hxs other)
  have hsame : m = l'.within nodes other := by
    have hhead : m.head = l'.head := hrepm.head.trans hrep'.head.symm
    have hnext : ∀ a,m.next a = (l'.within nodes other).next a := by
      intro a
      by_cases ha : a ∈ ys
      · rw [within_next,if_pos (hys a ha)]
        exact hrep'.ring.next_unique hrepm.ring ha
      · rw [hkeepm a ha,within_next,within_next]
        by_cases hn : a ∈ nodes
        · rw [if_pos hn,if_pos hn,hkeep' a ha]
        · rw [if_neg hn,if_neg hn]
    cases m with
    | mk head next =>
      obtain rfl : head = l'.head := hhead
      exact congrArg (Clist.mk l'.head) (funext hnext)
  rw [hm,hsame]

section Operations

variable {l : Clist α} {xs : List α} {n : α}

theorem rpush_frame (h : l.Repr xs) {a : α} (ha : a ∉ xs ++ [n]) :
    (l.rpush n).next a = l.next a := by
  have hn : a ≠ n := fun he => ha (by simp [he])
  cases hl : l.head with
  | none => simp [Clist.rpush,hl,hn]
  | some last =>
    obtain ⟨ys,rfl⟩ := h.snoc hl
    have hlast : a ≠ last := fun he => ha (by simp [he])
    simp [Clist.rpush,hl,hn,hlast]

theorem Repr.lpush (h : l.Repr xs) (hn : n ∉ xs) :
    (l.lpush n).Repr (n :: xs) ∧ ∀ a ∉ n :: xs,(l.lpush n).next a = l.next a := by
  cases hl : l.head with
  | none =>
    obtain rfl := h.head_eq_none.mp hl
    simp only [Clist.lpush,hl]
    refine ⟨⟨rfl,Ring.singleton l.next n⟩,?_⟩
    intro a ha
    have hne : a ≠ n := fun he => ha (by simp [he])
    simp [hne]
  | some last =>
    obtain ⟨ys,rfl⟩ := h.snoc hl
    simp only [Clist.lpush,hl]
    constructor
    · refine ⟨by simp [hl,List.getLast?_cons],?_⟩
      have hi := h.ring.insert hn
      rw [show ys ++ [last,n] = (ys ++ [last]) ++ [n] by simp] at hi
      exact hi.rotate
    · intro a ha
      have hne : a ≠ n := fun he => ha (by simp [he])
      have hlast : a ≠ last := fun he => ha (by simp [he])
      simp [hne,hlast]

omit [DecidableEq α] in
theorem Repr.lpoprpush (h : l.Repr xs) :
    l.lpoprpush.Repr (xs.rotate 1) ∧ l.lpoprpush.next = l.next := by
  cases xs with
  | nil =>
    have hop : l.lpoprpush = l := by simp only [Clist.lpoprpush,h.head,List.getLast?_nil]
    rw [hop]
    exact ⟨h,rfl⟩
  | cons a ys =>
    obtain ⟨last,hlast⟩ : ∃ last,last ∈ (a :: ys).getLast? :=
      ⟨_,List.getLast?_eq_some_getLast (List.cons_ne_nil _ _)⟩
    have hhead : l.head = some last := h.head.trans hlast
    have hop : l.lpoprpush = { l with head := l.next last } := by
      simp only [Clist.lpoprpush,hhead]
    rw [hop,show (a :: ys).rotate 1 = ys ++ [a] by simp]
    refine ⟨⟨?_,?_⟩,rfl⟩
    · rw [List.getLast?_concat]
      exact h.ring.next_last hlast
    · have hr : Ring l.next ([a] ++ ys) := h.ring
      exact hr.rotate

/-- The rotations stop when the node looked for is the first one. -/
theorem rotateTo_spec {pre suf : List α} {last : α} {fuel : Nat}
    (h : l.Repr (suf ++ last :: pre)) (hfuel : suf.length < fuel) :
    ∃ l',rotateTo last fuel l = some l' ∧ l'.Repr (last :: (pre ++ suf)) ∧ l'.next = l.next := by
  induction suf generalizing l pre fuel with
  | nil =>
    obtain ⟨fuel,rfl⟩ := Nat.exists_eq_succ_of_ne_zero (Nat.ne_of_gt hfuel)
    rw [List.nil_append] at h
    cases hl : l.head with
    | none => cases h.head_eq_none.mp hl
    | some cur =>
      have hcur : cur ∈ (last :: pre).getLast? := h.head.symm.trans hl
      have hnext := h.ring.next_last hcur
      refine ⟨l,?_,by rwa [List.append_nil],rfl⟩
      simp only [rotateTo,hl,hnext,ne_eq,not_true_eq_false,if_false]
  | cons a suf ih =>
    obtain ⟨fuel,rfl⟩ := Nat.exists_eq_succ_of_ne_zero (Nat.ne_of_gt (Nat.zero_lt_of_lt hfuel))
    cases hl : l.head with
    | none => cases h.head_eq_none.mp hl
    | some cur =>
      have hcur : cur ∈ (a :: (suf ++ last :: pre)).getLast? := h.head.symm.trans hl
      have hnext : l.next cur = some a := Ring.next_last h.ring hcur
      have hne : a ≠ last := by
        intro he
        exact (List.nodup_cons.mp h.nodup).1 (by simp [he])
      obtain ⟨hrep,hsame⟩ := h.lpoprpush
      rw [show (a :: suf ++ last :: pre).rotate 1 = suf ++ last :: (pre ++ [a]) by simp] at hrep
      obtain ⟨l',hrot,hrep',hsame'⟩ := ih hrep (Nat.lt_of_succ_lt_succ hfuel)
      refine ⟨l',?_,by simpa using hrep',hsame'.trans hsame⟩
      simp only [rotateTo,hl,hnext,ne_eq,Option.some.injEq,hne,not_false_eq_true,if_true,hrot]

theorem Repr.rpop {fuel : Nat} (h : l.Repr xs) (hfuel : xs.length ≤ fuel) :
    ∃ l',l.rpop fuel = some (xs.getLast?,l') ∧ l'.Repr xs.dropLast ∧
      ∀ a ∉ xs.dropLast,l'.next a = l.next a := by
  cases hl : l.head with
  | none =>
    obtain rfl := h.head_eq_none.mp hl
    exact ⟨l,by simp [Clist.rpop,hl],h,fun _ _ => rfl⟩
  | some last =>
    obtain ⟨ys,rfl⟩ := h.snoc hl
    rw [List.length_append,List.length_singleton] at hfuel
    have hshort : ys.length < fuel := hfuel
    obtain ⟨m,hrot,hrep,hsame⟩ := rotateTo_spec h hshort
    rw [List.nil_append] at hrep
    obtain ⟨cur,hcur⟩ : ∃ cur,m.head = some cur := by
      rw [hrep.head]
      exact ⟨_,List.getLast?_eq_some_getLast (List.cons_ne_nil _ _)⟩
    obtain ⟨l',hpop,hrep',hkeep⟩ := hrep.lpop hcur
    rw [List.getLast?_concat,List.dropLast_concat]
    refine ⟨l',by simp only [Clist.rpop,hl,hrot,hpop],hrep',?_⟩
    intro a ha
    rw [hkeep a ha,hsame]

/-- The successors of the nodes that are left out stay as they are. -/
theorem Repr.remove_frame {fuel : Nat} (h : l.Repr xs) (hfuel : xs.length ≤ fuel) {r : Option α}
    {l' : Clist α} (hrem : l.remove fuel n = some (r,l')) :
    ∀ a ∉ xs.erase n,l'.next a = l.next a := by
  cases hl : l.head with
  | none =>
    simp only [Clist.remove,hl,Option.some.injEq,Prod.mk.injEq] at hrem
    rw [hrem.2]
    exact fun _ _ => rfl
  | some last =>
    by_cases hfirst : l.next last = some n
    · cases xs with
      | nil => cases h.head.symm.trans hl
      | cons b ys =>
        have hlast : last ∈ (b :: ys).getLast? := h.head.symm.trans hl
        obtain rfl : b = n := by simpa using (h.ring.next_last hlast).symm.trans hfirst
        obtain ⟨m,hpop,_,hkeep⟩ := h.lpop hl
        simp only [Clist.remove,hl,hfirst,if_true,hpop,Option.some.injEq,Prod.mk.injEq] at hrem
        rw [List.erase_cons_head,← hrem.2]
        exact hkeep
    · rcases h.findBefore hfuel n with ⟨_,hf⟩ | ⟨p,hp,hpn,hf⟩
      · simp only [Clist.remove,hl,hfirst,if_false,hf,Option.some.injEq,Prod.mk.injEq] at hrem
        rw [hrem.2]
        exact fun _ _ => rfl
      · have hne : p ≠ n := by
          intro he
          subst he
          obtain ⟨pre,post,rfl⟩ := List.append_of_mem hp
          cases post with
          | nil =>
            have hlast : p = last := by simpa [h.head] using hl
            exact hfirst (hlast ▸ hpn)
          | cons b post =>
            obtain rfl : b = p := by simpa using h.ring.next_of_split.symm.trans hpn
            have hnd := (List.nodup_append.mp h.nodup).2.1
            exact (List.nodup_cons.mp hnd).1 List.mem_cons_self
        have hmem : p ∈ xs.erase n := (List.mem_erase_of_ne hne).mpr hp
        simp only [Clist.remove,hl,hfirst,if_false,hf,hpn,Option.some.injEq,
          Prod.mk.injEq] at hrem
        intro a ha
        have hap : a ≠ p := fun he => ha (he ▸ hmem)
        rw [← hrem.2]
        split <;> exact Function.update_of_ne hap _ _

/-- The nodes in order, as long as the callback returns zero. -/
def visit (func : α → σ → Int × σ) : List α → σ → Option α × σ
  | [],s => (none,s)
  | node :: rest,s =>
    let (res,s) := func node s
    if res ≠ 0 then (some node,s) else visit func rest s

omit [DecidableEq α] in
theorem foreach_fold (func : α → σ → Int × σ) (xs : List α) (s : σ) :
    visit func xs s = match xs.foldlM (foreachBody func) s with
      | .error (node,s) => (some node,s)
      | .ok s => (none,s) := by
  induction xs generalizing s with
  | nil => rfl
  | cons a xs ih =>
    rw [List.foldlM_cons,visit]
    by_cases hres : (func a s).1 = 0
    · simp only [foreachBody,hres,ne_eq,not_true_eq_false,if_false]
      exact ih _
    · simp only [foreachBody,hres,ne_eq,not_false_eq_true,if_true]
      rfl

theorem Repr.foreach {fuel : Nat} (h : l.Repr xs) (hfuel : xs.length ≤ fuel)
    (func : α → σ → Int × σ) (s : σ) : l.foreach fuel func s = some (visit func xs s) := by
  cases hl : l.head with
  | none =>
    obtain rfl := h.head_eq_none.mp hl
    simp only [Clist.foreach,hl,visit]
  | some last =>
    obtain ⟨ys,rfl⟩ := h.snoc hl
    simp only [Clist.foreach,hl,h.ring.walk_eq (foreachBody func) fuel s hfuel,foreach_fold]
    cases (ys ++ [last]).foldlM (foreachBody func) s <;> rfl

omit [DecidableEq α] in
theorem count_fold (xs : List α) (cnt : Nat) :
    xs.foldlM (fun cnt _ => (.ok (cnt + 1) : Except Empty Nat)) cnt = .ok (cnt + xs.length) := by
  induction xs generalizing cnt with
  | nil => rfl
  | cons a xs ih =>
    rw [List.length_cons,Nat.add_comm xs.length,← Nat.add_assoc]
    exact ih (cnt + 1)

theorem Repr.count {fuel : Nat} (h : l.Repr xs) (hfuel : xs.length ≤ fuel) :
    l.count fuel = some xs.length := by
  cases hl : l.head with
  | none =>
    obtain rfl := h.head_eq_none.mp hl
    simp only [Clist.count,hl,List.length_nil]
  | some last =>
    obtain ⟨ys,rfl⟩ := h.snoc hl
    simp only [Clist.count,hl,h.ring.walk_eq _ fuel 0 hfuel,count_fold,Nat.zero_add]

end Operations

/-- What the operations do to a list that stands for `xs`. Each loop needs no more rounds than
there are nodes. -/
structure IsSequence (l : Clist α) (xs : List α) : Prop where
  isEmpty : l.isEmpty ↔ xs = []
  rpush : ∀ n ∉ xs,Acts (fun l => some ((),l.rpush n)) (n :: xs) l () (xs ++ [n])
  lpush : ∀ n ∉ xs,Acts (fun l => some ((),l.lpush n)) (n :: xs) l () (n :: xs)
  lpop : Acts Clist.lpop xs l xs.head? xs.tail
  rpop : ∀ fuel,xs.length ≤ fuel → Acts (Clist.rpop fuel) xs l xs.getLast? xs.dropLast
  lpoprpush : Acts (fun l => some ((),l.lpoprpush)) xs l () (xs.rotate 1)
  lpeek : Acts (fun l => some (l.lpeek,l)) xs l xs.head? xs
  rpeek : Acts (fun l => some (l.rpeek,l)) xs l xs.getLast? xs
  find : ∀ fuel n,xs.length ≤ fuel →
    Acts (fun l => (l.find fuel n).map (·,l)) xs l (if n ∈ xs then some n else none) xs
  remove : ∀ fuel n,xs.length ≤ fuel →
    Acts (fun l => l.remove fuel n) xs l (if n ∈ xs then some n else none) (xs.erase n)
  remove_absent : ∀ fuel n,xs.length ≤ fuel → n ∉ xs → l.remove fuel n = some (none,l)
  foreach : ∀ fuel (σ : Type) (func : α → σ → Int × σ) (s : σ),xs.length ≤ fuel →
    Acts (fun l => (l.foreach fuel func s).map (·,l)) xs l (visit func xs s) xs
  count : ∀ fuel,xs.length ≤ fuel → Acts (fun l => (l.count fuel).map (·,l)) xs l xs.length xs
  exactlyOne : l.exactlyOne ↔ xs.length = 1
  moreThanOne : l.moreThanOne ↔ 1 < xs.length

/-- An operation that only looks acts on the nodes of the list. -/
theorem acts_of_look {look : Clist α → Option ρ} {l : Clist α} {xs : List α} {r : ρ}
    (hlook : ∀ l : Clist α,l.Repr xs → look l = some r) (h : l.Repr xs) :
    Acts (fun l => (look l).map (·,l)) xs l r xs := by
  refine acts_of_repr ?_ (fun _ ha => ha) (fun _ ha => ha) h
  intro l h
  exact ⟨l,by simp only [hlook l h,Option.map_some],h,fun _ _ => rfl⟩

section Sequence

variable {l : Clist α} {xs : List α}

theorem Repr.acts_lpop (h : l.Repr xs) : Acts Clist.lpop xs l xs.head? xs.tail := by
  refine acts_of_repr ?_ (fun _ ha => ha) (fun _ ha => List.mem_of_mem_tail ha) h
  intro l h
  cases xs with
  | nil =>
    have hhead : l.head = none := h.head
    exact ⟨l,by simp only [Clist.lpop,hhead,List.head?_nil],h,fun _ _ => rfl⟩
  | cons a ys =>
    obtain ⟨last,hlast⟩ : ∃ last,l.head = some last := by
      rw [h.head]
      exact ⟨_,List.getLast?_eq_some_getLast (List.cons_ne_nil _ _)⟩
    exact h.lpop hlast

theorem Repr.acts_remove (h : l.Repr xs) {fuel : Nat} (hfuel : xs.length ≤ fuel) (n : α) :
    Acts (fun l => l.remove fuel n) xs l (if n ∈ xs then some n else none) (xs.erase n) := by
  refine acts_of_repr ?_ (fun _ ha => ha) (fun _ ha => List.mem_of_mem_erase ha) h
  intro l h
  rcases h.remove hfuel n with ⟨hn,hrem⟩ | ⟨hn,l',hrem,hrep⟩
  · rw [if_neg hn]
    refine ⟨l,hrem,?_,fun _ _ => rfl⟩
    rwa [List.erase_of_not_mem hn]
  · rw [if_pos hn]
    exact ⟨l',hrem,hrep,h.remove_frame hfuel hrem⟩

omit [DecidableEq α] in
theorem Repr.lpeek (h : l.Repr xs) : l.lpeek = xs.head? := by
  cases xs with
  | nil => simp only [Clist.lpeek,h.head,List.getLast?_nil,List.head?_nil]
  | cons a ys =>
    have hlast : l.head = some ((a :: ys).getLast (List.cons_ne_nil a ys)) :=
      h.head.trans (List.getLast?_eq_some_getLast _)
    simp only [Clist.lpeek,hlast]
    exact h.ring.next_last (List.getLast?_eq_some_getLast _)

omit [DecidableEq α] in
/-- The last node is the first one only in a list of one node. -/
theorem Repr.head_eq_lpeek (h : l.Repr xs) (hne : xs ≠ []) : l.head = l.lpeek ↔ xs.length = 1 := by
  rw [h.lpeek,h.head]
  cases xs with
  | nil => exact absurd rfl hne
  | cons a ys =>
    rcases List.eq_nil_or_concat ys with rfl | ⟨zs,z,rfl⟩
    · simp
    · have haz : a ≠ z := fun he => (List.nodup_cons.mp h.nodup).1 (by simp [he])
      have hza : z ≠ a := haz.symm
      simp [List.getLast?_cons,hza]

omit [DecidableEq α] in
theorem Repr.isEmpty (h : l.Repr xs) : l.isEmpty ↔ xs = [] := by
  rw [Clist.isEmpty,decide_eq_true_iff]
  exact h.head_eq_none

theorem Repr.exactlyOne (h : l.Repr xs) : l.exactlyOne ↔ xs.length = 1 := by
  cases hl : l.head with
  | none =>
    obtain rfl := h.head_eq_none.mp hl
    simp [Clist.exactlyOne,Clist.isEmpty,hl]
  | some last =>
    have hne : xs ≠ [] := fun he => by simp [h.head_eq_none.mpr he] at hl
    rw [← h.head_eq_lpeek hne]
    simp [Clist.exactlyOne,Clist.isEmpty,Clist.lpeek,hl]

theorem Repr.moreThanOne (h : l.Repr xs) : l.moreThanOne ↔ 1 < xs.length := by
  cases hl : l.head with
  | none =>
    obtain rfl := h.head_eq_none.mp hl
    simp [Clist.moreThanOne,Clist.isEmpty,hl]
  | some last =>
    have hne : xs ≠ [] := fun he => by simp [h.head_eq_none.mpr he] at hl
    have hone := h.head_eq_lpeek hne
    have hpos := List.length_pos_iff.mpr hne
    have hmore : l.moreThanOne ↔ ¬l.head = l.lpeek := by
      simp [Clist.moreThanOne,Clist.isEmpty,Clist.lpeek,hl]
    rw [hmore,hone]
    omega

/-- The circular list implements a sequence. -/
theorem implements_sequence (h : l.Repr xs) : l.IsSequence xs where
  isEmpty := h.isEmpty
  rpush := by
    intro n hn
    refine acts_of_repr ?_ (fun _ ha => List.mem_cons_of_mem _ ha) (by simp [or_comm]) h
    intro l h
    exact ⟨_,rfl,h.rpush hn,fun _ ha => rpush_frame h ha⟩
  lpush := by
    intro n hn
    refine acts_of_repr ?_ (fun _ ha => List.mem_cons_of_mem _ ha) (fun _ ha => ha) h
    intro l h
    exact ⟨_,rfl,(h.lpush hn).1,(h.lpush hn).2⟩
  lpop := h.acts_lpop
  rpop := by
    intro fuel hfuel
    refine acts_of_repr ?_ (fun _ ha => ha) (fun _ ha => List.mem_of_mem_dropLast ha) h
    exact fun l h => h.rpop hfuel
  lpoprpush := by
    refine acts_of_repr ?_ (fun _ ha => ha) (fun _ ha => List.mem_rotate.mp ha) h
    intro l h
    exact ⟨_,rfl,h.lpoprpush.1,fun a _ => by rw [h.lpoprpush.2]⟩
  lpeek := acts_of_look (fun _ h => congrArg some h.lpeek) h
  rpeek := acts_of_look (fun _ h => congrArg some h.head) h
  find := fun _ n hfuel => acts_of_look (fun _ h => h.find hfuel n) h
  remove := fun _ n hfuel => h.acts_remove hfuel n
  remove_absent := by
    intro fuel n hfuel hn
    rcases h.remove hfuel n with ⟨_,hrem⟩ | ⟨hmem,_⟩
    · exact hrem
    · exact absurd hmem hn
  foreach := fun _ _ func s hfuel => acts_of_look (fun _ h => h.foreach hfuel func s) h
  count := fun _ hfuel => acts_of_look (fun _ h => h.count hfuel) h
  exactlyOne := h.exactlyOne
  moreThanOne := h.moreThanOne

end Sequence

/-- Three nodes after each other. -/
def oneTwoThree : Clist Nat := ⟨some 3,fun n => if n = 3 then some 1 else some (n + 1)⟩

theorem oneTwoThree_repr : oneTwoThree.Repr [1,2,3] where
  head := rfl
  ring := ⟨by decide,by simp [Links,oneTwoThree],by simp [Links,oneTwoThree]⟩

theorem implements_sequence_oneTwoThree : oneTwoThree.IsSequence [1,2,3] :=
  implements_sequence oneTwoThree_repr

end Clist

end UcVfs
