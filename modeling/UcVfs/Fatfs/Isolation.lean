import UcVfs.Fatfs.DirVolume
import UcVfs.Fatfs.TableNumbers
import UcVfs.Fatfs.VolumeCalls
import UcVfs.Framework.Unwinding
import Mathlib.Algebra.Order.BigOperators.Group.Finset

/-!
# Isolation of mounts

In a run in which a mount is formatted or mounted only while the others are not mounted, what is done
with a mount is as if the others had been left alone. Its descriptors have other names then: the table
gives every open the first entry that is free.
-/

namespace UcVfs

open Framework
open scoped BigOperators

variable {c : FatCore} {Mnt : Type} [DecidableEq Mnt] {dno : Mnt → Fin 2}

namespace FatVfs

/-- Nothing was mounted or opened yet; the disks may hold anything. -/
structure Fresh (dno : Mnt → Fin 2) (s : FatVfs c Mnt) : Prop where
  described : s.fat.Described dno
  record : ∀ m,s.fat.sys.record m = ⟨none,0,c.zeroVol⟩
  fsid : s.fat.sys.fsid = 0
  mounted : ∀ m,s.mounted m = false
  openFiles : ∀ m,s.openFiles m = 0
  files : ∀ i,s.files i = none

/-- No other mount is mounted. -/
def Alone (s : FatVfs c Mnt) (m : Mnt) : Prop := ∀ n,n ≠ m → s.mounted n = false

/-- No file was opened yet that has a number. -/
def unnumbered (s : FatVfs c Mnt) : NumberedVfs c Mnt :=
  ⟨s.fat,s.mounted,s.openFiles,fun _ => 0,fun _ _ => none⟩

theorem Fresh.numbered {s : FatVfs c Mnt} (h : s.Fresh dno) :
    Numbered s s.unnumbered fun _ => none where
  fat := rfl
  mounted := rfl
  openFiles := rfl
  files := h.files
  used := nofun
  placed := nofun
  inj := nofun
  fresh := nofun
  counted m := by
    show s.openFiles m = _
    rw [h.openFiles]
    simp

theorem Fresh.tidy {s : FatVfs c Mnt} (h : s.Fresh dno) : NumberedVfs.Tidy dno s.unnumbered where
  described := h.described
  mounted m := by simp [unnumbered,h.mounted,h.record]
  serves m hm := by simp [unnumbered,h.mounted] at hm
  ids m := by simp [unnumbered,h.record]
  handles m k hd hh := by simp [unnumbered] at hh

end FatVfs

variable [Fintype Mnt]

/-! What is allowed among numbered files. -/

def VolOp.Allowed (m : Mnt) : VolOp → NumberedVfs c Mnt → Prop
  | format,s => s.Alone m
  | mount,s => s.Alone m ∧ s.fat.sys.fsid + 1 < 2 ^ 16
  | open_ _ _,s => s.mounted m = true → ¬s.TableFull
  | _,_ => True

namespace NumberedVfs

variable {s t : NumberedVfs c Mnt} {m : Mnt}

theorem exec_simulates (hdno : Function.Injective dno) (h : Tidy dno s) {op : VolOp}
    (hop : op.Allowed m s) : ∃ r s',op.exec m s = some (r,s') ∧ Simulates dno s s' m op r := by
  cases op with
  | format => exact format_simulates hdno h hop
  | mount => exact mount_simulates hdno h hop.1 hop.2
  | umount force => exact umount_simulates h force
  | open_ name flags => exact open_simulates hdno h name flags hop
  | read k count => exact read_simulates hdno h k count
  | write k src => exact write_simulates hdno h k src
  | close k => exact close_simulates hdno h k
  | unlink name => exact unlink_simulates hdno h name
  | rename fromPath toPath => exact rename_simulates hdno h fromPath toPath

variable (dno m) in
/-- A state of the whole and one in which only `m` was ever used. -/
structure Alike (s t : NumberedVfs c Mnt) : Prop where
  tidy : Tidy dno s
  tidyAlone : Tidy dno t
  share : s.share dno m = t.share dno m
  idle : t.Alone m
  closed : ∀ n,n ≠ m → t.openFiles n = 0
  fsid : t.fat.sys.fsid ≤ s.fat.sys.fsid

omit [Fintype Mnt] in
theorem Alike.mounted (h : Alike dno m s t) : s.mounted m = t.mounted m := by
  rw [← h.tidy.share_vol,h.share,h.tidyAlone.share_vol]

omit [Fintype Mnt] in
/-- The same opens of the mount are open. -/
theorem Alike.handles (h : Alike dno m s t) (k : Nat) :
    (s.handles m k).map (fun hd => (⟨hd.flags,s.fat.live hd,hd.fd.file.body⟩ : PrivateHandle c)) =
      (t.handles m k).map fun hd => ⟨hd.flags,t.fat.live hd,hd.fd.file.body⟩ := by
  have hs := @share_handles _ _ _ dno m s k
  rw [← hs,h.share]
  exact share_handles

/-- The mount alone needs no more descriptors than all together. -/
theorem Alike.tableFull (h : Alike dno m s t) (hfull : t.TableFull) : s.TableFull := by
  have hopen : s.openFiles m = t.openFiles m := congrArg PrivateVolume.openFiles h.share
  have hsum : ∑ n,t.openFiles n = s.openFiles m := by
    rw [hopen]
    exact Finset.sum_eq_single m (fun n _ hn => h.closed n hn) (by simp)
  have hle : s.openFiles m ≤ ∑ n,s.openFiles n :=
    Finset.single_le_sum (f := s.openFiles) (fun _ _ => Nat.zero_le _) (Finset.mem_univ m)
  calc VFS_MAX_OPEN_FILES
      ≤ ∑ n,t.openFiles n := hfull
    _ = s.openFiles m := hsum
    _ ≤ ∑ n,s.openFiles n := hle

/-- What is allowed among others is allowed alone. -/
theorem Alike.allowed (h : Alike dno m s t) {op : VolOp} (hop : op.Allowed m s) :
    op.Allowed m t := by
  cases op with
  | format => exact h.idle
  | mount => exact ⟨h.idle,lt_of_le_of_lt (Nat.add_le_add_right h.fsid 1) hop.2⟩
  | open_ name flags => exact fun hm hfull => hop (h.mounted.trans hm) (h.tableFull hfull)
  | _ => trivial

theorem Alike.own (hdno : Function.Injective dno) (h : Alike dno m s t) {op : VolOp}
    {s' : NumberedVfs c Mnt} {r : VolResult} (hop : op.Allowed m s)
    (hexec : op.exec m s = some (r,s')) :
    ∃ t',op.exec m t = some (r,t') ∧ Alike dno m s' t' := by
  obtain ⟨r₁,s₁,hexec₁,hsim⟩ := exec_simulates hdno h.tidy hop
  obtain ⟨rfl,rfl⟩ := Prod.mk.inj (Option.some.inj (hexec.symm.trans hexec₁))
  obtain ⟨r₂,t',hexec₂,hsim₂⟩ := exec_simulates hdno h.tidyAlone (h.allowed hop)
  -- both do what the private volume does
  have hprivate : (r,s'.share dno m) = (r₂,t'.share dno m) := by
    rw [← hsim.own,← hsim₂.own,h.share]
  obtain ⟨rfl,hshare⟩ := Prod.mk.inj hprivate
  refine ⟨t',hexec₂,hsim.tidy,hsim₂.tidy,hshare,?_,?_,?_⟩
  · intro n hn
    rw [← hsim₂.tidy.share_vol,hsim₂.others n hn,h.tidyAlone.share_vol]
    exact h.idle n hn
  · intro n hn
    have hopen := congrArg PrivateVolume.openFiles (hsim₂.others n hn)
    exact hopen.trans (h.closed n hn)
  · rw [hsim.fsid,hsim₂.fsid]
    exact Nat.add_le_add_right h.fsid _

theorem Alike.other (hdno : Function.Injective dno) (h : Alike dno m s t) {n : Mnt} (hn : n ≠ m)
    {op : VolOp} {s' : NumberedVfs c Mnt} {r : VolResult} (hop : op.Allowed n s)
    (hexec : op.exec n s = some (r,s')) : Alike dno m s' t := by
  obtain ⟨r₁,s₁,hexec₁,hsim⟩ := exec_simulates hdno h.tidy hop
  obtain ⟨rfl,rfl⟩ := Prod.mk.inj (Option.some.inj (hexec.symm.trans hexec₁))
  refine ⟨hsim.tidy,h.tidyAlone,?_,h.idle,h.closed,?_⟩
  · rw [hsim.others m hn.symm]
    exact h.share
  · rw [hsim.fsid]
    exact h.fsid.trans (Nat.le_add_right _ _)

end NumberedVfs

/-- The drive is free for a mount to be formatted or mounted; an open on a mounted volume finds a free
entry, and a mount an id that was not given before. -/
def VfsOp.Allowed (m : Mnt) : VfsOp → FatVfs c Mnt → Prop
  | format,s => s.Alone m
  | mount,s => s.Alone m ∧ s.fat.sys.fsid + 1 < 2 ^ 16
  | open_ _ _,s => s.mounted m = true → (firstFree s.files).isSome
  | _,_ => True

namespace VfsCall

def Allowed : VfsCall Mnt → FatVfs c Mnt → Prop
  | on m op,s => op.Allowed m s
  | _,_ => True

/-- The calls about a mount: those that name it, and those about the descriptors that `ρ` knows. -/
def About (m : Mnt) (ρ : Fd → Option Fd) : VfsCall Mnt → Prop
  | on n _ => n = m
  | fd i _ => ∃ f : Fd,i = (f : Nat) ∧ (ρ f).isSome
  | renameAcross _ _ _ _ _ => False

/-- The same in a state: the descriptor is open on the mount. -/
def At (s : FatVfs c Mnt) (m : Mnt) : VfsCall Mnt → Prop
  | on n _ => n = m
  | fd i _ => ∃ (f : Fd) (h : _),i = (f : Nat) ∧ s.files f = some ⟨m,h⟩
  | renameAcross _ _ _ _ _ => False

end VfsCall

instance (m : Mnt) (op : VfsOp) (s : FatVfs c Mnt) : Decidable (op.Allowed m s) := by
  cases op
  all_goals
    unfold VfsOp.Allowed
    try unfold FatVfs.Alone
    infer_instance

instance (call : VfsCall Mnt) (s : FatVfs c Mnt) : Decidable (call.Allowed s) := by
  cases call
  all_goals
    unfold VfsCall.Allowed
    infer_instance

/-- An entry of a run among others, and what stands for it in the run of one mount alone. `ρ` is the
descriptor there of each of the mount's descriptors. -/
inductive Renames (m : Mnt) (ρ : Fd → Option Fd) : VfsCall Mnt × VolResult →
    Option (VfsCall Mnt × VolResult) → (Fd → Option Fd) → Prop
  | other {call r} (h : ¬call.About m ρ) : Renames m ρ (call,r) none ρ
  | on {op r} (h : ¬(VfsCall.on m op).Opens r) : Renames m ρ (.on m op,r) (some (.on m op,r)) ρ
  | opened {name flags} {i j : Fd} (hi : ρ i = none) (hj : ∀ i',ρ i' ≠ some j) :
      Renames m ρ (.on m (.open_ name flags),⟨(i : Nat),[]⟩)
        (some (.on m (.open_ name flags),⟨(j : Nat),[]⟩)) (Function.update ρ i (some j))
  | fd {i j : Fd} {op r} (hij : ρ i = some j) (h : op ≠ .close) :
      Renames m ρ (.fd (i : Nat) op,r) (some (.fd (j : Nat) op,r)) ρ
  | closed {i j : Fd} {r} (hij : ρ i = some j) :
      Renames m ρ (.fd (i : Nat) .close,r) (some (.fd (j : Nat) .close,r))
        (Function.update ρ i none)

variable (c Mnt) in
def vfsSteps : Steps (FatVfs c Mnt) (VfsCall Mnt) VolResult := ⟨VfsCall.exec,VfsCall.Allowed⟩

instance (call : VfsCall Mnt) (s : FatVfs c Mnt) : Decidable ((vfsSteps c Mnt).Meets call s) :=
  inferInstanceAs (Decidable (call.Allowed s))

/-- A mount is the same in both, and so are its open files, under other descriptors. -/
structure SameMount (dno : Mnt → Fin 2) (m : Mnt) (ρ : Fd → Option Fd) (s t : FatVfs c Mnt) : Prop
    where
  mounted : t.mounted m = s.mounted m
  vol : (t.fat.sys.record m).fsType.map (fun ft => (ft,(t.fat.sys.record m).vol)) =
    (s.fat.sys.record m).fsType.map fun ft => (ft,(s.fat.sys.record m).vol)
  disk : t.fat.sys.disks (dno m) = s.fat.sys.disks (dno m)
  openFiles : t.openFiles m = s.openFiles m
  files : ∀ i h,s.files i = some ⟨m,h⟩ → ∃ j h',ρ i = some j ∧ t.files j = some ⟨m,h'⟩ ∧
    h'.flags = h.flags ∧ h'.fd.file.body = h.fd.file.body ∧ t.fat.live h' = s.fat.live h

/-! ### One step -/

section Relations

variable {α β : Type} {P : α → β → Prop} {a : Option α} {b : Option β}

theorem rel_left (h : Option.Rel P a b) {x : α} (ha : a = some x) : ∃ y,b = some y ∧ P x y := by
  subst ha
  cases h with
  | some h => exact ⟨_,rfl,h⟩

theorem rel_right (h : Option.Rel P a b) {y : β} (hb : b = some y) : ∃ x,a = some x ∧ P x y := by
  subst hb
  cases h with
  | some h => exact ⟨_,rfl,h⟩

end Relations

section Step

variable {s s' t : FatVfs c Mnt} {v : NumberedVfs c Mnt} {num num' : Numbering Mnt} {m n : Mnt}
  {ρ : Fd → Option Fd} {r q : VolResult}

theorem Numbered.allowed (hn : Numbered s v num) (op : VfsOp) :
    op.Allowed m s ↔ op.numbered.Allowed m v := by
  have halone : s.Alone m ↔ v.Alone m := by
    rw [FatVfs.Alone,NumberedVfs.Alone,hn.mounted]
  cases op with
  | format => exact halone
  | mount =>
    show (s.Alone m ∧ _) ↔ v.Alone m ∧ _
    rw [halone,hn.fat]
  | open_ name flags =>
    show (s.mounted m = true → (firstFree s.files).isSome) ↔ (v.mounted m = true → ¬v.TableFull)
    rw [hn.mounted,← hn.tableFull,← ne_eq,Option.ne_none_iff_isSome]
  | umount force | unlink name | rename fromPath toPath => exact Iff.rfl

/-- A call about a descriptor is always allowed. -/
theorem FdOp.numbered_allowed (op : FdOp) (k : Nat) (v : NumberedVfs c Mnt) :
    (op.numbered k).Allowed m v := by
  cases op with
  | read | write | close => trivial

omit [DecidableEq Mnt] [Fintype Mnt] in
/-- A call about a mount leaves the numbers of the others alone. -/
theorem Answered.on_elsewhere {op : VfsOp} (h : Answered num (.on n op) r q num') (hn : n ≠ m)
    (i : Fd) (k : Nat) : num' i = some (m,k) ↔ num i = some (m,k) := by
  cases h with
  | on => exact Iff.rfl
  | @opened _ _ _ j _ hj =>
    by_cases hi : i = j
    · subst hi
      simp [hj,hn]
    · rw [Function.update_of_ne hi]

omit [DecidableEq Mnt] [Fintype Mnt] in
theorem Answered.fd_elsewhere {j : Fd} {op : FdOp} {l : Nat}
    (h : Answered num (.fd (j : Nat) op) r q num') (hj : num j = some (n,l)) (hn : n ≠ m) (i : Fd)
    (k : Nat) : num' i = some (m,k) ↔ num i = some (m,k) := by
  generalize hfd : ((j : Nat) : Int) = fd at h
  cases h with
  | fd => exact Iff.rfl
  | @closed j' =>
    obtain rfl : j = j' := Fin.ext (Int.ofNat.inj hfd)
    by_cases hi : i = j
    · subst hi
      simp [hj,hn]
    · rw [Function.update_of_ne hi]

/-- The mount among others, and alone. -/
def Beside (dno : Mnt → Fin 2) (m : Mnt) (ρ : Fd → Option Fd) (s t : FatVfs c Mnt) : Prop :=
  ∃ v w num num',Numbered s v num ∧ Numbered t w num' ∧ NumberedVfs.Alike dno m v w ∧
    Corresponds m num num' ρ

theorem Beside.on (hdno : Function.Injective dno) (h : Beside dno m ρ s t) {op : VfsOp}
    (hop : op.Allowed m s) (hexec : op.exec m s = some (r,s')) :
    ∃ ρ' r' t',Renames m ρ (.on m op,r) (some (.on m op,r')) ρ' ∧ op.Allowed m t ∧
      op.exec m t = some (r',t') ∧ Beside dno m ρ' s' t' := by
  obtain ⟨v,w,num,num',hs,ht,halike,hρ⟩ := h
  have hop' := (hs.allowed op).mp hop
  obtain ⟨⟨q,v'⟩,hv,num₁,hanswer,hs'⟩ := rel_left (hs.on m op) hexec
  obtain ⟨w',hw,halike'⟩ := halike.own hdno hop' hv
  obtain ⟨⟨r',t'⟩,htexec,num₂,hanswer',ht'⟩ := rel_right (ht.on m op) hw
  have hopt := (ht.allowed op).mpr (halike.allowed hop')
  dsimp only at hanswer hanswer' hs' ht'
  cases hanswer with
  | on hopen =>
    cases hanswer' with
    | on => exact ⟨ρ,_,t',.on hopen,hopt,htexec,v',w',num,num',hs',ht',halike',hρ⟩
    | opened => exact absurd (Int.natCast_nonneg _) hopen
  | @opened _ _ _ i k hi =>
    generalize hq : (⟨(k : Nat),[]⟩ : VolResult) = q at hanswer'
    cases hanswer' with
    | on hopen =>
      subst hq
      exact absurd (Int.natCast_nonneg _) hopen
    | @opened _ _ _ j k' hj =>
      obtain rfl : k = k' := Int.ofNat.inj (VolResult.mk.inj hq).1
      refine ⟨_,_,t',.opened (j := j) (hρ.none_left fun l hl => ?_) (fun a ha => ?_),hopt,htexec,v',w',_,_,
        hs',ht',halike',hρ.opened hi hj (hs'.number_new hi) (ht'.number_new hj)⟩
      · rw [hi] at hl
        cases hl
      · obtain ⟨l,_,hl⟩ := (hρ a j).mp ha
        rw [hj] at hl
        cases hl

/-- A call about an open file of the mount. -/
theorem Beside.fd (hdno : Function.Injective dno) (h : Beside dno m ρ s t) {i : Fd} {hd : VfsHandle c Mnt}
    (hi : s.files i = some ⟨m,hd⟩) {op : FdOp} (hexec : op.exec (i : Nat) s = some (r,s')) :
    ∃ (ρ' : Fd → Option Fd) (j : Fd) (t' : FatVfs c Mnt),
      Renames m ρ (.fd (i : Nat) op,r) (some (.fd (j : Nat) op,r)) ρ' ∧
        op.exec (j : Nat) t = some (r,t') ∧ Beside dno m ρ' s' t' := by
  obtain ⟨v,w,num,num',hs,ht,halike,hρ⟩ := h
  obtain ⟨k,hnum,hh⟩ := hs.number hi
  obtain ⟨j,hnum'⟩ : ∃ j,num' j = some (m,k) := by
    refine ht.placed m k ?_
    rw [← Option.isSome_map,← halike.handles k,hh]
    rfl
  have hij : ρ i = some j := (hρ i j).mpr ⟨k,hnum,hnum'⟩
  obtain ⟨⟨q,v'⟩,hv,num₁,hanswer,hs'⟩ := rel_left (hs.fd hnum op) hexec
  obtain ⟨w',hw,halike'⟩ := halike.own hdno (op.numbered_allowed k v) hv
  obtain ⟨⟨r',t'⟩,htexec,num₂,hanswer',ht'⟩ := rel_right (ht.fd hnum' op) hw
  dsimp only at hanswer hanswer' hs' ht'
  generalize hfi : ((i : Nat) : Int) = fi at hanswer
  generalize hfj : ((j : Nat) : Int) = fj at hanswer'
  cases hanswer with
  | fd hclose =>
    cases hanswer' with
    | fd =>
      subst hfi hfj
      exact ⟨ρ,j,t',.fd hij hclose,htexec,v',w',num,num',hs',ht',halike',hρ⟩
    | closed => exact absurd rfl hclose
  | @closed i' =>
    cases hanswer' with
    | fd hclose => exact absurd rfl hclose
    | @closed j' =>
      obtain rfl : i = i' := Fin.ext (Int.ofNat.inj hfi)
      obtain rfl : j = j' := Fin.ext (Int.ofNat.inj hfj)
      exact ⟨_,j,t',.closed hij,htexec,v',w',_,_,hs',ht',halike',hρ.closed hnum hnum' fun a ha =>
        hs.inj a i _ ha hnum⟩

/-- A call about another mount. -/
theorem Beside.other_on (hdno : Function.Injective dno) (h : Beside dno m ρ s t) (hn : n ≠ m)
    {op : VfsOp} (hop : op.Allowed n s) (hexec : op.exec n s = some (r,s')) :
    Beside dno m ρ s' t := by
  obtain ⟨v,w,num,num',hs,ht,halike,hρ⟩ := h
  obtain ⟨⟨q,v'⟩,hv,num₁,hanswer,hs'⟩ := rel_left (hs.on n op) hexec
  exact ⟨v',w,num₁,num',hs',ht,halike.other hdno hn ((hs.allowed op).mp hop) hv,
    hρ.elsewhere (hanswer.on_elsewhere hn)⟩

theorem Beside.other_fd (hdno : Function.Injective dno) (h : Beside dno m ρ s t) (hn : n ≠ m) {i : Fd}
    {hd : VfsHandle c Mnt} (hi : s.files i = some ⟨n,hd⟩) {op : FdOp}
    (hexec : op.exec (i : Nat) s = some (r,s')) : Beside dno m ρ s' t := by
  obtain ⟨v,w,num,num',hs,ht,halike,hρ⟩ := h
  obtain ⟨k,hnum,_⟩ := hs.number hi
  obtain ⟨⟨q,v'⟩,hv,num₁,hanswer,hs'⟩ := rel_left (hs.fd hnum op) hexec
  exact ⟨v',w,num₁,num',hs',ht,halike.other hdno hn (op.numbered_allowed k v) hv,
    hρ.elsewhere (hanswer.fd_elsewhere hnum hn)⟩

omit [Fintype Mnt] in
/-- The descriptors that `ρ` knows are open on the mount. -/
theorem Beside.known (h : Beside dno m ρ s t) {i : Fd} (hi : (ρ i).isSome) :
    ∃ hd,s.files i = some ⟨m,hd⟩ := by
  obtain ⟨v,w,num,num',hs,ht,halike,hρ⟩ := h
  obtain ⟨j,hj⟩ := Option.isSome_iff_exists.mp hi
  obtain ⟨k,hnum,_⟩ := (hρ i j).mp hj
  obtain ⟨hd,_,hfile⟩ := hs.file hnum
  exact ⟨hd,hfile⟩

omit [Fintype Mnt] in
/-- An open descriptor is an entry of the table that is in use. -/
theorem FatVfs.file_some {fd : Int} {i : Fd} {file : VfsFile c Mnt} (h : s.file fd = some (i,file)) :
    fd = (i : Nat) ∧ s.files i = some file := by
  rw [FatVfs.file] at h
  by_cases hin : 0 ≤ fd ∧ fd.toNat < VFS_MAX_OPEN_FILES
  · rw [dif_pos hin] at h
    obtain ⟨f,hf,he⟩ := Option.map_eq_some_iff.mp h
    obtain ⟨rfl,rfl⟩ := Prod.mk.inj he
    exact ⟨(Int.toNat_of_nonneg hin.1).symm,hf⟩
  · rw [dif_neg hin] at h
    cases h

omit [Fintype Mnt] in
/-- A rename from one mount to another is refused. -/
theorem renameAcross_exec (s : FatVfs c Mnt) (mFrom mTo : Mnt) (hne : mFrom ≠ mTo)
    (fromPath toPath : CStr) :
    ∃ r,VfsCall.exec (.renameAcross mFrom mTo hne fromPath toPath) s = some (r,s) := by
  by_cases hm : ¬s.mounted mFrom ∨ ¬s.mounted mTo
  · exact ⟨_,by simp only [VfsCall.exec,if_pos hm]; rfl⟩
  · exact ⟨_,by simp only [VfsCall.exec,if_neg hm]; rfl⟩

theorem Beside.unwinding (hdno : Function.Injective dno) (m : Mnt) :
    Unwinding (vfsSteps c Mnt) (Renames m) (Beside dno m) := by
  intro ρ call s t r s' h hmeets hstep
  cases call with
  | on n op =>
    by_cases hn : n = m
    · subst hn
      obtain ⟨ρ',r',t',hrenames,hop,hexec,h'⟩ := h.on hdno hmeets hstep
      exact ⟨ρ',.inr ⟨_,r',t',hrenames,hop,hexec,h'⟩⟩
    · exact ⟨ρ,.inl ⟨.other hn,h.other_on hdno hn hmeets hstep⟩⟩
  | fd fd op =>
    have habout : ∀ {i : Fd} {n : Mnt} {hd : VfsHandle c Mnt},s.files i = some ⟨n,hd⟩ → n ≠ m →
        ¬(VfsCall.fd ((i : Nat) : Int) op).About m ρ := by
      rintro i n hd hi hn ⟨f,hf,hρ⟩
      obtain rfl : i = f := Fin.ext (Int.ofNat.inj hf)
      obtain ⟨hd',hfile⟩ := h.known hρ
      rw [hi] at hfile
      cases hfile
      exact hn rfl
    cases hfile : s.file fd with
    | none =>
      obtain ⟨-,rfl⟩ := Prod.mk.inj (Option.some.inj (hstep.symm.trans (op.exec_bad hfile)))
      refine ⟨ρ,.inl ⟨.other ?_,h⟩⟩
      rintro ⟨f,rfl,hρ⟩
      obtain ⟨hd,hf⟩ := h.known hρ
      rw [Numbered.file_eq,hf] at hfile
      cases hfile
    | some entry =>
      obtain ⟨i,n,hd⟩ := entry
      obtain ⟨rfl,hi⟩ := FatVfs.file_some hfile
      by_cases hn : n = m
      · subst hn
        obtain ⟨ρ',j,t',hrenames,hexec,h'⟩ := h.fd hdno hi hstep
        exact ⟨ρ',.inr ⟨_,r,t',hrenames,trivial,hexec,h'⟩⟩
      · exact ⟨ρ,.inl ⟨.other (habout hi hn),h.other_fd hdno hn hi hstep⟩⟩
  | renameAcross mFrom mTo hne fromPath toPath =>
    obtain ⟨r',hexec⟩ := renameAcross_exec s mFrom mTo hne fromPath toPath
    obtain ⟨-,rfl⟩ := Prod.mk.inj (Option.some.inj (hstep.symm.trans hexec))
    exact ⟨ρ,.inl ⟨.other id,h⟩⟩

omit [Fintype Mnt] in
theorem Beside.sameMount (h : Beside dno m ρ s t) : SameMount dno m ρ s t := by
  obtain ⟨v,w,num,num',hs,ht,halike,hρ⟩ := h
  have hvol := congrArg PrivateVolume.vol halike.share
  have hdisk := congrArg PrivateVolume.disk halike.share
  have hopen : v.openFiles m = w.openFiles m := congrArg PrivateVolume.openFiles halike.share
  simp only [NumberedVfs.share,hs.fat,ht.fat] at hvol hdisk
  refine ⟨?_,hvol.symm,hdisk.symm,?_,fun i hd hi => ?_⟩
  · rw [← ht.mounted,← hs.mounted,halike.mounted]
  · rw [← ht.openFiles,← hs.openFiles,hopen]
  · obtain ⟨k,hnum,hh⟩ := hs.number hi
    have hsame := halike.handles k
    rw [hh,Option.map_some] at hsame
    obtain ⟨hd',hh',hview⟩ := Option.map_eq_some_iff.mp hsame.symm
    obtain ⟨j,hnum'⟩ := ht.placed m k (by rw [hh']; rfl)
    obtain ⟨hd₂,hh₂,hfile⟩ := ht.file hnum'
    obtain rfl : hd' = hd₂ := Option.some.inj (hh'.symm.trans hh₂)
    simp only [PrivateHandle.mk.injEq,hs.fat,ht.fat] at hview
    exact ⟨j,hd',(hρ i j).mpr ⟨k,hnum,hnum'⟩,hfile,hview.1,hview.2.2,hview.2.1⟩

omit [Fintype Mnt] in
theorem FatVfs.Fresh.beside (hs : s.Fresh dno) (ht : t.Fresh dno)
    (hdisk : t.fat.sys.disks (dno m) = s.fat.sys.disks (dno m)) :
    Beside dno m (fun _ => none) s t := by
  refine ⟨_,_,_,_,hs.numbered,ht.numbered,⟨hs.tidy,ht.tidy,?_,fun n _ => ht.mounted n,
    fun n _ => ht.openFiles n,?_⟩,fun i j => by simp⟩
  · simp [NumberedVfs.share,FatVfs.unnumbered,hs.record,ht.record,hdisk,hs.openFiles,ht.openFiles]
  · simp [FatVfs.unnumbered,hs.fsid,ht.fsid]

/-! ### Every next call -/

/-- The files can be numbered, and the drive is tidy. -/
def Sound (dno : Mnt → Fin 2) (s : FatVfs c Mnt) : Prop :=
  ∃ v num,Numbered s v num ∧ NumberedVfs.Tidy dno v

/-- What a call does to the numbered files it does to the table. -/
theorem Sound.of_numbered (hdno : Function.Injective dno) (hn : Numbered s v num)
    (htidy : NumberedVfs.Tidy dno v) {call : VfsCall Mnt} {op : VolOp} {n : Mnt} (hop : op.Allowed n v)
    (hpaired : Option.Rel (Paired num call) (call.exec s) (op.exec n v)) :
    ∃ r s',call.exec s = some (r,s') ∧ Sound dno s' ∧
      ∀ m,m ≠ n → s'.fat.sys.disks (dno m) = s.fat.sys.disks (dno m) := by
  obtain ⟨q,v',hv,hsim⟩ := NumberedVfs.exec_simulates hdno htidy hop
  obtain ⟨⟨r,s'⟩,hexec,num',_,hn'⟩ := rel_right hpaired hv
  refine ⟨r,s',hexec,⟨v',num',hn',hsim.tidy⟩,fun m hm => ?_⟩
  have hfat : v'.fat = s'.fat := hn'.fat
  have hdisk := congrArg PrivateVolume.disk (hsim.others m hm)
  simpa only [NumberedVfs.share,hn.fat,hfat] using hdisk

/-- An allowed call is answered, and changes no disk but that of its mount. -/
theorem Sound.exec (hdno : Function.Injective dno) (h : Sound dno s) {call : VfsCall Mnt}
    (hcall : call.Allowed s) : ∃ r s',call.exec s = some (r,s') ∧ Sound dno s' ∧
      ∀ m,¬call.At s m → s'.fat.sys.disks (dno m) = s.fat.sys.disks (dno m) := by
  obtain ⟨v,num,hn,htidy⟩ := id h
  cases call with
  | on n op =>
    obtain ⟨r,s',hexec,hs',hdisks⟩ :=
      Sound.of_numbered hdno hn htidy ((hn.allowed op).mp hcall) (hn.on n op)
    exact ⟨r,s',hexec,hs',fun m hm => hdisks m fun he => hm he.symm⟩
  | fd fd op =>
    cases hfile : s.file fd with
    | none => exact ⟨_,s,op.exec_bad hfile,h,fun _ _ => rfl⟩
    | some entry =>
      obtain ⟨i,n,hd⟩ := entry
      obtain ⟨rfl,hi⟩ := FatVfs.file_some hfile
      obtain ⟨k,hnum,_⟩ := hn.number hi
      have hpaired : Option.Rel (Paired num (.fd (i : Nat) op)) _ _ := hn.fd hnum op
      obtain ⟨r,s',hexec,hs',hdisks⟩ := Sound.of_numbered hdno hn htidy (op.numbered_allowed k v) hpaired
      refine ⟨r,s',hexec,hs',fun m hm => hdisks m fun he => hm ?_⟩
      exact ⟨i,hd,rfl,he ▸ hi⟩
  | renameAcross mFrom mTo hne fromPath toPath =>
    obtain ⟨r,hexec⟩ := renameAcross_exec s mFrom mTo hne fromPath toPath
    exact ⟨r,s,hexec,h,fun _ _ => rfl⟩

theorem FatVfs.Fresh.run_sound (hdno : Function.Injective dno) {s₀ : FatVfs c Mnt} (h₀ : s₀.Fresh dno)
    {log : List (VfsCall Mnt × VolResult)} (h : (vfsSteps c Mnt).Run s₀ log s) : Sound dno s := by
  refine h.invariant ?_ ⟨_,_,h₀.numbered,h₀.tidy⟩
  intro call s r s' hs hmeets hstep
  obtain ⟨r₁,s₁,hexec,hs₁,_⟩ := hs.exec hdno hmeets
  obtain ⟨-,rfl⟩ := Prod.mk.inj (Option.some.inj (hstep.symm.trans hexec))
  exact hs₁

end Step

/-- The answers to the calls about a mount, and what becomes of it, are those of a run in which only
these calls are made, whatever is on the other disk, up to the names of the descriptors; and no call
touches the disk of a mount that it is not about. -/
theorem isolation (hdno : Function.Injective dno) {s₀ s : FatVfs c Mnt} (h₀ : s₀.Fresh dno)
    {log : List (VfsCall Mnt × VolResult)} (h : (vfsSteps c Mnt).Run s₀ log s) :
    (∀ m (t₀ : FatVfs c Mnt),t₀.Fresh dno →
      t₀.fat.sys.disks (dno m) = s₀.fat.sys.disks (dno m) →
      ∃ log' t ρ,(vfsSteps c Mnt).Run t₀ log' t ∧ Matched (Renames m) (fun _ => none) log log' ρ ∧
        SameMount dno m ρ s t) ∧
    ∀ call : VfsCall Mnt,call.Allowed s → ∃ r s',call.exec s = some (r,s') ∧
      ∀ m,¬call.At s m → s'.fat.sys.disks (dno m) = s.fat.sys.disks (dno m) := by
  constructor
  · intro m t₀ ht₀ hdisk
    obtain ⟨log',t,ρ,hrun,hmatched,hbeside⟩ :=
      Unwinding.run (Beside.unwinding hdno m) h (h₀.beside ht₀ hdisk)
    exact ⟨log',t,ρ,hrun,hmatched,hbeside.sameMount⟩
  · intro call hcall
    obtain ⟨r,s',hexec,_,hdisks⟩ := (h₀.run_sound hdno h).exec hdno hcall
    exact ⟨r,s',hexec,hdisks⟩

/-! Two mounts, with the disks 0 and 1. -/

def twoDisks (m : Bool) : Fin 2 := if m then ⟨1,Nat.one_lt_two⟩ else ⟨0,Nat.zero_lt_two⟩

def twoMounts : FatVfs (dirCore followPlain) Bool where
  fat :=
    { descs := fun m => ⟨twoDisks m,0,List.replicate FATFS_MAX_ABS_PATH_SIZE nul⟩
      workMtx := 0
      sys := ⟨none,fun _ => none,none,0,fun _ => ⟨none,0,()⟩⟩
      calls := [] }
  mounted _ := false
  openFiles _ := 0
  files _ := none

theorem twoMounts_fresh : twoMounts.Fresh twoDisks where
  described := ⟨fun _ => rfl,fun _ => rfl,fun _ => rfl⟩
  record _ := rfl
  fsid := rfl
  mounted _ := rfl
  openFiles _ := rfl
  files _ := rfl

/-- The mounts take turns: one is unmounted with its file open, so that the other's file is opened at
entry 1, alone at entry 0. -/
def turns : List (VfsCall Bool × VolResult) :=
  let file := CStr.ofList ['f']
  [(.on true .format,⟨0,[]⟩),(.on true .mount,⟨0,[]⟩),
    (.on true (.open_ file (O_CREAT ||| O_RDWR)),⟨0,[]⟩),(.fd 0 (.write [7]),⟨1,[]⟩),
    (.on true (.umount true),⟨0,[]⟩),(.on false .format,⟨0,[]⟩),(.on false .mount,⟨0,[]⟩),
    (.on false (.open_ file (O_CREAT ||| O_RDWR)),⟨1,[]⟩),(.fd 1 (.write [1,2,3]),⟨3,[]⟩),
    (.fd 0 (.read 8),⟨-EINVAL,[]⟩),(.fd 0 .close,⟨-EINVAL,[]⟩),(.fd 1 .close,⟨0,[]⟩),
    (.on false (.open_ file O_RDONLY),⟨0,[]⟩),(.fd 0 (.read 8),⟨3,[1,2,3]⟩),
    (.on false (.umount true),⟨0,[]⟩),(.on true .mount,⟨0,[]⟩),(.on true (.unlink file),⟨0,[]⟩)]

theorem isolation_turns : ∃ s,(vfsSteps (dirCore followPlain) Bool).Run twoMounts turns s ∧
    (∃ log' t ρ,(vfsSteps (dirCore followPlain) Bool).Run twoMounts log' t ∧
      Matched (Renames false) (fun _ => none) turns log' ρ ∧ SameMount twoDisks false ρ s t) ∧
    ∀ call : VfsCall Bool,call.Allowed s → ∃ r s',call.exec s = some (r,s') ∧
      ∀ m,¬call.At s m → s'.fat.sys.disks (twoDisks m) = s.fat.sys.disks (twoDisks m) := by
  have hrun : ∃ s,(vfsSteps (dirCore followPlain) Bool).Run twoMounts turns s := by
    rw [Steps.exists_run]
    decide +kernel
  obtain ⟨s,h⟩ := hrun
  obtain ⟨halone,hdisks⟩ := isolation (by decide) twoMounts_fresh h
  exact ⟨s,h,halone false twoMounts twoMounts_fresh rfl,hdisks⟩

/-- The calls in any order. -/
def anyOrder : Steps (FatVfs (dirCore followPlain) Bool) (VfsCall Bool) VolResult :=
  ⟨VfsCall.exec,fun _ _ => True⟩

instance (call : VfsCall Bool) (s : FatVfs (dirCore followPlain) Bool) :
    Decidable (anyOrder.Meets call s) := inferInstanceAs (Decidable True)

/-- Both are mounted, then each is used. -/
def together : List (VfsCall Bool × VolResult) :=
  let file := CStr.ofList ['f']
  [(.on false .format,⟨0,[]⟩),(.on true .format,⟨0,[]⟩),(.on false .mount,⟨0,[]⟩),
    (.on true .mount,⟨0,[]⟩),(.on false (.open_ file (O_CREAT ||| O_RDWR)),⟨0,[]⟩),
    (.on true (.unlink file),⟨0,[]⟩)]

omit [DecidableEq Mnt] [Fintype Mnt] in
/-- A call about a mount that opens no file has no descriptor to be renamed. -/
theorem Renames.plain {m n : Mnt} {ρ ρ' : Fd → Option Fd} {op : VfsOp} {r : VolResult}
    {o : Option (VfsCall Mnt × VolResult)} (h : Renames m ρ (.on n op,r) o ρ')
    (hopen : n = m → ¬(VfsCall.on n op).Opens r) [Decidable (n = m)] :
    o = if n = m then some (.on n op,r) else none := by
  cases h with
  | other h => exact (if_neg h).symm
  | on => exact (if_pos rfl).symm
  | opened => exact absurd (Int.natCast_nonneg _) (hopen rfl)

/-- The calls of `together` about the second mount. -/
def aboutTrue : VfsCall Bool → Bool
  | .on n _ => n
  | _ => false

theorem together_plain {ρ ρ' : Fd → Option Fd} {e : VfsCall Bool × VolResult}
    {o : Option (VfsCall Bool × VolResult)} (he : e ∈ together) (h : Renames true ρ e o ρ') :
    o = if aboutTrue e.1 then some e else none := by
  simp only [together,List.mem_cons,List.not_mem_nil,or_false] at he
  rcases he with rfl | rfl | rfl | rfl | rfl | rfl
  all_goals exact h.plain (by simp [VfsCall.Opens])

/-- The file that was created on one mount appears on the disk of the other and is unlinked
there; alone, the unlink would have failed. -/
theorem mounts_share_drive :
    (∃ s,anyOrder.Run twoMounts together s) ∧
    (¬∃ log' t ρ,anyOrder.Run twoMounts log' t ∧
      Matched (Renames true) (fun _ => none) together log' ρ) ∧
    (anyOrder.follow ((together.take 4).map Prod.fst) twoMounts).any (fun v =>
      (VfsCall.on false (.open_ (CStr.ofList ['f']) (O_CREAT ||| O_RDWR))).exec v.2 |>.any fun w =>
        (v.2.fat.sys.disks (twoDisks true)).any (fun dir => dir ['f'] = none) ∧
        (w.2.fat.sys.disks (twoDisks true)).any (fun dir => dir ['f'] ≠ none)) := by
  refine ⟨?_,?_,?_⟩
  · rw [Steps.exists_run]
    decide +kernel
  · rintro ⟨log',t,ρ,hrun,hmatched⟩
    have hlog := @Matched.filter _ _ _ _ (fun call => aboutTrue call) _ _ _ _ _ hmatched
      fun _ _ _ _ => together_plain
    have halone : ∃ t,anyOrder.Run twoMounts (together.filter fun e => aboutTrue e.1) t :=
      ⟨t,by simpa [hlog] using hrun⟩
    rw [Steps.exists_run] at halone
    revert halone
    decide +kernel
  · decide +kernel

end UcVfs
