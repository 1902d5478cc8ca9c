import UcVfs.Fatfs.NumberedFiles
import UcVfs.Framework.Interleaving
import Mathlib.Algebra.BigOperators.Group.Finset.Sigma

/-!
# The entries of the table and their numbers

The calls over the table of open files do what the calls over numbered files do, where every entry in
use stands for the number of one open of its mount.
-/

namespace UcVfs

open Framework
open scoped BigOperators

variable {Mnt : Type}

/-- Which open of which mount made the file of an entry. -/
abbrev Numbering (Mnt : Type) := Fd → Option (Mnt × Nat)

section Update

variable {α β : Type} [DecidableEq α] {f : α → Option β} {a b : α} {x y : β}

theorem update_eq_some :
    Function.update f a (some x) b = some y ↔ (b = a ∧ x = y) ∨ (b ≠ a ∧ f b = some y) := by
  by_cases hb : b = a
  · subst hb
    simp
  · simp [hb]

theorem update_none_eq_some : Function.update f a none b = some y ↔ b ≠ a ∧ f b = some y := by
  by_cases hb : b = a
  · subst hb
    simp
  · simp [hb]

end Update

/-- Where the names of the descriptors of a mount in two tables correspond. -/
def Corresponds (m : Mnt) (num num' : Numbering Mnt) (ρ : Fd → Option Fd) : Prop :=
  ∀ i j,ρ i = some j ↔ ∃ k,num i = some (m,k) ∧ num' j = some (m,k)

namespace Corresponds

variable {m n : Mnt} {num num' num₂ : Numbering Mnt} {ρ : Fd → Option Fd} {i j : Fd} {k : Nat}

theorem none_left (h : Corresponds m num num' ρ) (hi : ∀ k,num i ≠ some (m,k)) : ρ i = none := by
  cases hρ : ρ i with
  | none => rfl
  | some j =>
    obtain ⟨k,hk,_⟩ := (h i j).mp hρ
    exact absurd hk (hi k)

/-- Something was done with other descriptors. -/
theorem elsewhere (h : Corresponds m num num' ρ)
    (hsame : ∀ i k,num₂ i = some (m,k) ↔ num i = some (m,k)) : Corresponds m num₂ num' ρ := by
  intro i j
  simp only [hsame]
  exact h i j

theorem opened (h : Corresponds m num num' ρ) (hi : num i = none) (hj : num' j = none)
    (hnew : ∀ i,num i ≠ some (m,k)) (hnew' : ∀ j,num' j ≠ some (m,k)) :
    Corresponds m (Function.update num i (some (m,k))) (Function.update num' j (some (m,k)))
      (Function.update ρ i (some j)) := by
  intro a b
  by_cases ha : a = i
  · subst ha
    simp only [Function.update_self,Option.some.injEq,Prod.mk.injEq,true_and]
    by_cases hb : b = j
    · subst hb
      simp
    · simp [hb,Ne.symm hb,hnew']
  · rw [Function.update_of_ne ha,Function.update_of_ne ha,h]
    by_cases hb : b = j
    · subst hb
      simp [hj,hnew]
    · rw [Function.update_of_ne hb]

theorem closed (h : Corresponds m num num' ρ) (hi : num i = some (m,k)) (hj : num' j = some (m,k))
    (hinj : ∀ a,num a = some (m,k) → a = i) :
    Corresponds m (Function.update num i none) (Function.update num' j none)
      (Function.update ρ i none) := by
  intro a b
  by_cases ha : a = i
  · subst ha
    simp
  · rw [Function.update_of_ne ha,Function.update_of_ne ha,h]
    by_cases hb : b = j
    · subst hb
      simp only [Function.update_self,hj,Option.some.injEq,Prod.mk.injEq,true_and]
      constructor
      · rintro ⟨k',hk',rfl⟩
        exact absurd (hinj a hk') ha
      · rintro ⟨k',_,hk'⟩
        cases hk'
    · rw [Function.update_of_ne hb]

end Corresponds

variable {c : FatCore} [DecidableEq Mnt]

/-- The calls with numbers that the calls of the table are. -/
def VfsOp.numbered : VfsOp → VolOp
  | format => .format
  | mount => .mount
  | umount force => .umount force
  | open_ name flags => .open_ name flags
  | unlink name => .unlink name
  | rename fromPath toPath => .rename fromPath toPath

def FdOp.numbered (k : Nat) : FdOp → VolOp
  | read count => .read k count
  | write src => .write k src
  | close => .close k

/-- A call that has opened a file. -/
def VfsCall.Opens : VfsCall Mnt → VolResult → Prop
  | on _ (.open_ _ _),r => 0 ≤ r.res
  | _,_ => False

/-- Both answers to a call, for the table and for the numbered files, and the numbering after it. -/
inductive Answered (num : Numbering Mnt) :
    VfsCall Mnt → VolResult → VolResult → Numbering Mnt → Prop
  | on {m op r} (hopen : ¬(VfsCall.on m op).Opens r) : Answered num (.on m op) r r num
  | opened {m name flags i k} (hi : num i = none) :
      Answered num (.on m (.open_ name flags)) ⟨(i : Nat),[]⟩ ⟨(k : Nat),[]⟩
        (Function.update num i (some (m,k)))
  | fd {i op r} (hclose : op ≠ .close) : Answered num (.fd i op) r r num
  | closed {i : Fd} {r} : Answered num (.fd i .close) r r (Function.update num i none)

/-- The table holds the numbered files. -/
structure Numbered (s : FatVfs c Mnt) (v : NumberedVfs c Mnt) (num : Numbering Mnt) : Prop where
  fat : v.fat = s.fat
  mounted : v.mounted = s.mounted
  openFiles : v.openFiles = s.openFiles
  files : ∀ i,s.files i = (num i).bind fun n => (v.handles n.1 n.2).map (VfsFile.mk n.1)
  used : ∀ i m k,num i = some (m,k) → (v.handles m k).isSome
  placed : ∀ m k,(v.handles m k).isSome → ∃ i,num i = some (m,k)
  inj : ∀ i j n,num i = some n → num j = some n → i = j
  fresh : ∀ i m k,num i = some (m,k) → k < v.opened m
  counted : ∀ m,v.openFiles m = (Finset.univ.filter fun i => (num i).map Prod.fst = some m).card

namespace Numbered

variable {s : FatVfs c Mnt} {v : NumberedVfs c Mnt} {num : Numbering Mnt} {i : Fd} {m : Mnt}
  {k : Nat} {h : VfsHandle c Mnt}

theorem free (hn : Numbered s v num) : s.files i = none ↔ num i = none := by
  rw [hn.files]
  cases hi : num i with
  | none => simp
  | some n =>
    have hused := hn.used i n.1 n.2 hi
    simpa [Option.isSome_iff_ne_none] using hused

theorem file (hn : Numbered s v num) (hi : num i = some (m,k)) :
    ∃ h,v.handles m k = some h ∧ s.files i = some ⟨m,h⟩ := by
  obtain ⟨h,hh⟩ := Option.isSome_iff_exists.mp (hn.used i m k hi)
  exact ⟨h,hh,by rw [hn.files,hi,Option.bind_some,hh,Option.map_some]⟩

theorem number (hn : Numbered s v num) (hi : s.files i = some ⟨m,h⟩) :
    ∃ k,num i = some (m,k) ∧ v.handles m k = some h := by
  cases hnum : num i with
  | none =>
    rw [hn.free.mpr hnum] at hi
    cases hi
  | some n =>
    obtain ⟨h',hh,hfile⟩ := hn.file (m := n.1) (k := n.2) hnum
    rw [hfile] at hi
    cases hi
    exact ⟨n.2,rfl,hh⟩

/-- The table is full when there are as many files as entries. -/
theorem tableFull [Fintype Mnt] (hn : Numbered s v num) :
    firstFree s.files = none ↔ v.TableFull := by
  have hsum : ∑ m,v.openFiles m = (Finset.univ.filter fun i => (num i).isSome).card := by
    simp only [hn.counted,Finset.card_filter]
    rw [Finset.sum_comm]
    refine Finset.sum_congr rfl fun i _ => ?_
    cases num i with
    | none => simp
    | some n => simp
  have hcard : (Finset.univ.filter fun i => (num i).isSome).card = VFS_MAX_OPEN_FILES ↔
      ∀ i,(num i).isSome := by
    have hall := Finset.card_filter_eq_iff (s := Finset.univ) (p := fun i : Fd => (num i).isSome)
    rw [Finset.card_univ,Fintype.card_fin] at hall
    simpa using hall
  have hle := Finset.card_filter_le (Finset.univ : Finset Fd) fun i => (num i).isSome
  rw [Finset.card_univ,Fintype.card_fin] at hle
  rw [NumberedVfs.TableFull,hsum,ge_iff_le.symm.trans (le_antisymm_iff.trans (and_iff_right hle)).symm,
    hcard]
  simp only [firstFree,List.find?_eq_none,List.mem_finRange,true_implies]
  refine forall_congr' fun i => ?_
  rw [Option.isNone_iff_eq_none,hn.free,← ne_eq,Option.ne_none_iff_isSome]

theorem with_fat (hn : Numbered s v num) (fat : FatState (c.fatFs Mnt)) :
    Numbered { s with fat := fat } { v with fat := fat } num :=
  ⟨rfl,hn.mounted,hn.openFiles,hn.files,hn.used,hn.placed,hn.inj,hn.fresh,hn.counted⟩

theorem with_mounted (hn : Numbered s v num) (mounted : Mnt → Bool) :
    Numbered { s with mounted := mounted } { v with mounted := mounted } num :=
  ⟨hn.fat,rfl,hn.openFiles,hn.files,hn.used,hn.placed,hn.inj,hn.fresh,hn.counted⟩

/-- No two entries have one number. -/
theorem number_ne (hn : Numbered s v num) (hi : num i = some (m,k)) {j : Fd} (hj : j ≠ i)
    {n : Mnt × Nat} (hnum : num j = some n) : ¬(n.1 = m ∧ n.2 = k) := by
  rintro ⟨h₁,h₂⟩
  exact hj (hn.inj j i (m,k) (hnum.trans (congrArg some (Prod.ext h₁ h₂))) hi)

/-- A number that an entry is given had no entry before. -/
theorem number_new (hn : Numbered s v (Function.update num i (some (m,k)))) (hi : num i = none)
    (j : Fd) : num j ≠ some (m,k) := by
  intro hj
  have hji : j ≠ i := by
    rintro rfl
    rw [hi] at hj
    cases hj
  exact hji (hn.inj j i (m,k) (update_eq_some.mpr (.inr ⟨hji,hj⟩)) (Function.update_self ..))

/-- The number of a mount's entries when one entry changes. -/
theorem counted_update (hn : Numbered s v num) (i : Fd) (o : Option (Mnt × Nat)) (m : Mnt) :
    (Finset.univ.filter fun j => (Function.update num i o j).map Prod.fst = some m).card +
        (if (num i).map Prod.fst = some m then 1 else 0) =
      v.openFiles m + if o.map Prod.fst = some m then 1 else 0 := by
  rw [hn.counted m]
  exact card_filter_update (fun n : Option (Mnt × Nat) => n.map Prod.fst = some m) num i o

/-- The file of an entry is another, and still open. -/
theorem store (hn : Numbered s v num) (hi : num i = some (m,k)) (h : VfsHandle c Mnt) :
    Numbered (s.setFile i (some ⟨m,h⟩)) (v.setHandle m k (some h)) num := by
  have hhandles : ∀ m' k',((v.setHandle m k (some h)).handles m' k').isSome =
      (v.handles m' k').isSome := by
    intro m' k'
    by_cases he : m' = m ∧ k' = k
    · obtain ⟨rfl,rfl⟩ := he
      rw [v.setHandle_handles_self,hn.used i m' k' hi]
      rfl
    · rw [v.setHandle_handles_ne _ he]
  refine ⟨hn.fat,hn.mounted,hn.openFiles,fun j => ?_,fun j m' k' hj => ?_,fun m' k' hh => ?_,hn.inj,
    hn.fresh,hn.counted⟩
  · by_cases hj : j = i
    · subst hj
      simp [FatVfs.setFile,hi,v.setHandle_handles_self]
    · simp only [FatVfs.setFile,Function.update_of_ne hj,hn.files j]
      cases hnum : num j with
      | none => rfl
      | some n => simp only [Option.bind_some,v.setHandle_handles_ne _ (hn.number_ne hi hj hnum)]
  · rw [hhandles]
    exact hn.used j m' k' hj
  · rw [hhandles] at hh
    exact hn.placed m' k' hh

/-- The file of an entry is closed. -/
theorem close (hn : Numbered s v num) (hi : num i = some (m,k)) :
    Numbered ((s.setFile i none).setOpenFiles m (s.openFiles m - 1))
      ((v.setHandle m k none).setCounts m (v.openFiles m - 1) (v.opened m))
      (Function.update num i none) := by
  refine ⟨hn.fat,hn.mounted,?_,fun j => ?_,fun j m' k' hj => ?_,fun m' k' hh => ?_,fun j j' n hj hj' =>
    hn.inj j j' n (update_none_eq_some.mp hj).2 (update_none_eq_some.mp hj').2,fun j m' k' hj => ?_,
    fun m' => ?_⟩
  · show Function.update v.openFiles m _ = Function.update s.openFiles m _
    rw [hn.openFiles]
  · show Function.update s.files i none j = (Function.update num i none j).bind fun n =>
      ((v.setHandle m k none).handles n.1 n.2).map (VfsFile.mk n.1)
    by_cases hj : j = i
    · subst hj
      simp
    · rw [Function.update_of_ne hj,Function.update_of_ne hj,hn.files j]
      cases hnum : num j with
      | none => rfl
      | some n => simp only [Option.bind_some,v.setHandle_handles_ne _ (hn.number_ne hi hj hnum)]
  · obtain ⟨hne,hj⟩ := update_none_eq_some.mp hj
    show ((v.setHandle m k none).handles m' k').isSome
    rw [v.setHandle_handles_ne _ (hn.number_ne hi hne hj)]
    exact hn.used j m' k' hj
  · have hh : ((v.setHandle m k none).handles m' k').isSome := hh
    have hne : ¬(m' = m ∧ k' = k) := by
      rintro ⟨rfl,rfl⟩
      rw [v.setHandle_handles_self] at hh
      cases hh
    rw [v.setHandle_handles_ne _ hne] at hh
    obtain ⟨j,hj⟩ := hn.placed m' k' hh
    have hji : j ≠ i := by
      rintro rfl
      obtain ⟨rfl,rfl⟩ := Prod.mk.inj (Option.some.inj (hj.symm.trans hi))
      exact hne ⟨rfl,rfl⟩
    exact ⟨j,update_none_eq_some.mpr ⟨hji,hj⟩⟩
  · have hlt := hn.fresh j m' k' (update_none_eq_some.mp hj).2
    show k' < Function.update v.opened m (v.opened m) m'
    rwa [Function.update_eq_self]
  · have hcount := hn.counted_update i none m'
    rw [hi] at hcount
    show Function.update v.openFiles m _ m' = _
    by_cases hm : m' = m
    · subst hm
      simp at hcount
      rw [Function.update_self]
      omega
    · simp [Ne.symm hm] at hcount
      rw [Function.update_of_ne hm]
      omega

/-- A free entry is taken for the next open of a mount. -/
theorem open_ (hn : Numbered s v num) (hi : num i = none) (h : VfsHandle c Mnt) :
    Numbered ((s.setFile i (some ⟨m,h⟩)).setOpenFiles m (s.openFiles m + 1))
      ((v.setHandle m (v.opened m) (some h)).setCounts m (v.openFiles m + 1) (v.opened m + 1))
      (Function.update num i (some (m,v.opened m))) := by
  have hnew : ∀ {j},num j ≠ some (m,v.opened m) := fun hj => lt_irrefl _ (hn.fresh _ _ _ hj)
  have hold : ∀ {j n},num j = some n → ¬(n.1 = m ∧ n.2 = v.opened m) := by
    rintro j n hj ⟨h₁,h₂⟩
    exact hnew (hj.trans (congrArg some (Prod.ext h₁ h₂)))
  refine ⟨hn.fat,hn.mounted,?_,fun j => ?_,fun j m' k' hj => ?_,fun m' k' hh => ?_,fun j j' n hj hj' => ?_,
    fun j m' k' hj => ?_,fun m' => ?_⟩
  · show Function.update v.openFiles m _ = Function.update s.openFiles m _
    rw [hn.openFiles]
  · show Function.update s.files i (some ⟨m,h⟩) j =
      (Function.update num i (some (m,v.opened m)) j).bind fun n =>
        ((v.setHandle m (v.opened m) (some h)).handles n.1 n.2).map (VfsFile.mk n.1)
    by_cases hj : j = i
    · subst hj
      simp [v.setHandle_handles_self]
    · rw [Function.update_of_ne hj,Function.update_of_ne hj,hn.files j]
      cases hnum : num j with
      | none => rfl
      | some n => simp only [Option.bind_some,v.setHandle_handles_ne _ (hold hnum)]
  · show ((v.setHandle m (v.opened m) (some h)).handles m' k').isSome
    obtain ⟨-,he⟩ | ⟨-,hj⟩ := update_eq_some.mp hj
    · cases he
      rw [v.setHandle_handles_self]
      rfl
    · rw [v.setHandle_handles_ne _ (hold hj)]
      exact hn.used j m' k' hj
  · have hh : ((v.setHandle m (v.opened m) (some h)).handles m' k').isSome := hh
    by_cases he : m' = m ∧ k' = v.opened m
    · obtain ⟨rfl,rfl⟩ := he
      exact ⟨i,Function.update_self ..⟩
    · rw [v.setHandle_handles_ne _ he] at hh
      obtain ⟨j,hj⟩ := hn.placed m' k' hh
      have hji : j ≠ i := by
        rintro rfl
        rw [hi] at hj
        cases hj
      exact ⟨j,update_eq_some.mpr (.inr ⟨hji,hj⟩)⟩
  · obtain ⟨rfl,rfl⟩ | ⟨-,hwas⟩ := update_eq_some.mp hj
    · obtain ⟨rfl,-⟩ | ⟨-,hwas'⟩ := update_eq_some.mp hj'
      · rfl
      · exact absurd hwas' hnew
    · obtain ⟨rfl,rfl⟩ | ⟨-,hwas'⟩ := update_eq_some.mp hj'
      · exact absurd hwas hnew
      · exact hn.inj j j' n hwas hwas'
  · show k' < Function.update v.opened m (v.opened m + 1) m'
    obtain ⟨-,he⟩ | ⟨-,hj⟩ := update_eq_some.mp hj
    · cases he
      rw [Function.update_self]
      exact Nat.lt_succ_self _
    · have hlt := hn.fresh j m' k' hj
      by_cases hm : m' = m
      · subst hm
        rw [Function.update_self]
        exact Nat.lt_succ_of_lt hlt
      · rwa [Function.update_of_ne hm]
  · have hcount := hn.counted_update i (some (m,v.opened m)) m'
    rw [hi] at hcount
    show Function.update v.openFiles m _ m' = _
    by_cases hm : m' = m
    · subst hm
      simp at hcount
      rw [Function.update_self]
      omega
    · simp [Ne.symm hm] at hcount
      rw [Function.update_of_ne hm]
      omega

variable {P : VolResult × FatVfs c Mnt → VolResult × NumberedVfs c Mnt → Prop}

/-- A driver function runs for both. -/
theorem drive (hn : Numbered s v num) {ρ : Type} (p : FatProg (c.fatFs Mnt) ρ)
    {next : ρ → FatVfs c Mnt → VolResult × FatVfs c Mnt}
    {next' : ρ → NumberedVfs c Mnt → VolResult × NumberedVfs c Mnt}
    (hnext : ∀ r fat,Numbered { s with fat := fat } { v with fat := fat } num →
      P (next r { s with fat := fat }) (next' r { v with fat := fat })) :
    Option.Rel P (s.drive p next) (v.drive p next') := by
  rw [FatVfs.drive,NumberedVfs.drive,hn.fat]
  cases p.run FatAct.exec s.fat with
  | none => exact .none
  | some w => exact .some (hnext w.1 w.2 (hn.with_fat w.2))

end Numbered

/-- Both do the same, with these answers. -/
def Paired (num : Numbering Mnt) (call : VfsCall Mnt) (a : VolResult × FatVfs c Mnt)
    (b : VolResult × NumberedVfs c Mnt) : Prop :=
  ∃ num',Answered num call a.1 b.1 num' ∧ Numbered a.2 b.2 num'

namespace Numbered

variable {s : FatVfs c Mnt} {v : NumberedVfs c Mnt} {num : Numbering Mnt} {i : Fd} {m : Mnt} {k : Nat}

theorem paired_on (hn : Numbered s v num) {op : VfsOp} {r : VolResult}
    (hopen : ¬(VfsCall.on m op).Opens r) : Paired num (.on m op) (r,s) (r,v) :=
  ⟨num,.on hopen,hn⟩

theorem paired_fd (hn : Numbered s v num) {fd : Int} {op : FdOp} {r : VolResult}
    (hclose : op ≠ .close) : Paired num (.fd fd op) (r,s) (r,v) :=
  ⟨num,.fd hclose,hn⟩

theorem open_paired [Fintype Mnt] (hn : Numbered s v num) (m : Mnt) (name : CStr) (flags : Nat) :
    Option.Rel (Paired num (.on m (.open_ name flags))) (s.vfsOpen m name flags)
      (v.vfsOpen m name flags) := by
  have hneg : ∀ {r : VolResult},r.res < 0 → ¬(VfsCall.on m (.open_ name flags)).Opens r :=
    fun hr => not_le.mpr hr
  rw [FatVfs.vfsOpen,NumberedVfs.vfsOpen,hn.mounted]
  by_cases hm : s.mounted m = true
  · rw [if_neg (not_not.mpr hm),if_neg (not_not.mpr hm)]
    cases hfree : firstFree s.files with
    | none =>
      rw [if_pos (hn.tableFull.mp hfree)]
      exact .some (hn.paired_on (hneg (by decide)))
    | some i =>
      have hfull : ¬v.TableFull := by
        rw [← hn.tableFull,hfree]
        exact Option.some_ne_none i
      have hi : num i = none := by
        have hnone := List.find?_some hfree
        exact hn.free.mp (Option.isNone_iff_eq_none.mp hnone)
      rw [if_neg hfull]
      refine hn.drive _ fun r fat hn' => ?_
      by_cases hr : r.1 < 0
      · rw [if_pos hr,if_pos hr]
        exact hn'.paired_on (hneg hr)
      · rw [if_neg hr,if_neg hr]
        exact ⟨_,.opened hi,hn'.open_ hi ⟨flags,r.2⟩⟩
  · rw [if_pos hm,if_pos hm]
    exact .some (hn.paired_on (hneg (by decide)))

/-- A call about a mount does the same for the numbered files. -/
theorem on [Fintype Mnt] (hn : Numbered s v num) (m : Mnt) (op : VfsOp) :
    Option.Rel (Paired num (.on m op)) (op.exec m s) (op.numbered.exec m v) := by
  cases op with
  | format =>
    show Option.Rel _ (s.vfsFormat m) (v.vfsFormat m)
    rw [FatVfs.vfsFormat,NumberedVfs.vfsFormat,hn.mounted]
    by_cases hm : s.mounted m = true
    · rw [if_pos hm,if_pos hm]
      exact .some (hn.paired_on id)
    · rw [if_neg hm,if_neg hm]
      exact hn.drive _ fun r fat hn' => hn'.paired_on id
  | mount =>
    show Option.Rel _ (s.vfsMount m) (v.vfsMount m)
    rw [FatVfs.vfsMount,NumberedVfs.vfsMount,hn.mounted]
    by_cases hm : s.mounted m = true
    · rw [if_pos hm,if_pos hm]
      exact .some (hn.paired_on id)
    · rw [if_neg hm,if_neg hm]
      refine hn.drive _ fun r fat hn' => ?_
      by_cases hr : r < 0
      · rw [if_pos hr,if_pos hr]
        exact hn'.paired_on id
      · rw [if_neg hr,if_neg hr,hn.mounted]
        exact (hn'.with_mounted _).paired_on id
  | umount force =>
    show Option.Rel _ (s.vfsUmount m force) (v.vfsUmount m force)
    rw [FatVfs.vfsUmount,NumberedVfs.vfsUmount,hn.mounted,hn.openFiles]
    by_cases hm : s.mounted m = true
    · rw [if_neg (not_not.mpr hm),if_neg (not_not.mpr hm)]
      by_cases hbusy : 0 < s.openFiles m ∧ ¬force = true
      · rw [if_pos hbusy,if_pos hbusy]
        exact .some (hn.paired_on id)
      · rw [if_neg hbusy,if_neg hbusy]
        refine hn.drive _ fun r fat hn' => ?_
        by_cases hr : r < 0
        · rw [if_pos hr,if_pos hr]
          exact hn'.paired_on id
        · rw [if_neg hr,if_neg hr,hn.mounted]
          exact (hn'.with_mounted _).paired_on id
    · rw [if_pos hm,if_pos hm]
      exact .some (hn.paired_on id)
  | open_ name flags => exact hn.open_paired m name flags
  | unlink name =>
    show Option.Rel _ (s.vfsUnlink m name) (v.vfsUnlink m name)
    rw [FatVfs.vfsUnlink,NumberedVfs.vfsUnlink,hn.mounted]
    by_cases hm : s.mounted m = true
    · rw [if_neg (not_not.mpr hm),if_neg (not_not.mpr hm)]
      exact hn.drive _ fun r fat hn' => hn'.paired_on id
    · rw [if_pos hm,if_pos hm]
      exact .some (hn.paired_on id)
  | rename fromPath toPath =>
    show Option.Rel _ (s.vfsRename m fromPath toPath) (v.vfsRename m fromPath toPath)
    rw [FatVfs.vfsRename,NumberedVfs.vfsRename,hn.mounted]
    by_cases hm : s.mounted m = true
    · rw [if_neg (not_not.mpr hm),if_neg (not_not.mpr hm)]
      exact hn.drive _ fun r fat hn' => hn'.paired_on id
    · rw [if_pos hm,if_pos hm]
      exact .some (hn.paired_on id)

/-- The entry of a descriptor in the range of the table. -/
theorem file_eq (s : FatVfs c Mnt) (i : Fd) :
    s.file (i : Nat) = (s.files i).map fun file => (i,file) := by
  have hin : (0 : Int) ≤ (i : Nat) ∧ ((i : Nat) : Int).toNat < VFS_MAX_OPEN_FILES :=
    ⟨Int.natCast_nonneg _,by simp⟩
  rw [FatVfs.file,dif_pos hin]
  rfl

/-- So does a call about the descriptor of an open file. -/
theorem fd (hn : Numbered s v num) (hi : num i = some (m,k)) [Fintype Mnt] (op : FdOp) :
    Option.Rel (Paired num (.fd (i : Nat) op)) (op.exec (i : Nat) s) ((op.numbered k).exec m v) := by
  obtain ⟨h,hh,hfile⟩ := hn.file hi
  have hentry : s.file (i : Nat) = some (i,⟨m,h⟩) := by rw [file_eq,hfile,Option.map_some]
  cases op with
  | read count =>
    show Option.Rel _ (s.vfsRead (i : Nat) count) (v.vfsRead m k count)
    simp only [FatVfs.vfsRead,NumberedVfs.vfsRead,hentry,hh]
    by_cases hacc : h.flags &&& O_ACCMODE ≠ O_RDONLY ∧ h.flags &&& O_ACCMODE ≠ O_RDWR
    · rw [if_pos hacc,if_pos hacc]
      exact .some (hn.paired_fd nofun)
    · rw [if_neg hacc,if_neg hacc]
      exact hn.drive _ fun r fat hn' => (hn'.store hi _).paired_fd nofun
  | write src =>
    show Option.Rel _ (s.vfsWrite (i : Nat) src) (v.vfsWrite m k src)
    simp only [FatVfs.vfsWrite,NumberedVfs.vfsWrite,hentry,hh]
    by_cases hacc : h.flags &&& O_ACCMODE ≠ O_WRONLY ∧ h.flags &&& O_ACCMODE ≠ O_RDWR
    · rw [if_pos hacc,if_pos hacc]
      exact .some (hn.paired_fd nofun)
    · rw [if_neg hacc,if_neg hacc]
      exact hn.drive _ fun r fat hn' => (hn'.store hi _).paired_fd nofun
  | close =>
    show Option.Rel _ (s.vfsClose (i : Nat)) (v.vfsClose m k)
    simp only [FatVfs.vfsClose,NumberedVfs.vfsClose,hentry,hh]
    exact hn.drive _ fun r fat hn' => ⟨_,.closed,hn'.close hi⟩

end Numbered

/-- A descriptor that is not open is refused. -/
theorem FdOp.exec_bad {s : FatVfs c Mnt} {fd : Int} (hfd : s.file fd = none) (op : FdOp) :
    op.exec fd s = some (⟨-EBADF,[]⟩,s) := by
  cases op with
  | read count => simp only [FdOp.exec,FatVfs.vfsRead,hfd,FatVfs.badFd]
  | write src => simp only [FdOp.exec,FatVfs.vfsWrite,hfd,FatVfs.badFd]
  | close => simp only [FdOp.exec,FatVfs.vfsClose,hfd,FatVfs.badFd]

end UcVfs
