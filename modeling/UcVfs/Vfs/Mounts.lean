import UcVfs.Vfs.Types
import Mathlib.Data.Fintype.Card

/-!
# The mount list

The parts of `vfs.c` that run under `_mount_mutex`: `check_mount`, the bodies of `vfs_mount`
and `vfs_umount`, and the search of `_find_mount`. Each is a partial function on the state;
`none` is a null dereference or a misused mutex.
-/

namespace UcVfs

open Framework

variable {W : World}

/-- Mount objects are finitely many, and so are the rounds of a loop over their list. -/
def listBound (W : World) : Nat := Fintype.card W.Mnt

/-- Holds the mutex exactly when it returns 0. -/
def checkMount (mountp : Option W.Mnt) (s : State W) : Option (Int × State W) :=
  match mountp with
  | none => some (-EINVAL,s)
  | some m =>
    match (s.mounts m).fs,(s.mounts m).mountPoint with
    | some _,some mountPoint =>
      if mountPoint.at_ 0 ≠ '/' then
        some (-EINVAL,s)
      else
        let s := s.modifyMount m fun o => { o with mountPointLen := mountPoint.length }
        let s := s.lockMount
        match s.mountsList.find (listBound W) m with
        | none => none
        | some (some _) => s.unlockMount.map fun s => (-EBUSY,s)
        | some none => some (0,s)
    | _,_ => some (-EINVAL,s)

/-- A callback of `fs_op` that a driver does not need to implement; 0 when it is missing. -/
def callFs (fs : FileSystem W) (m : W.Mnt) (req : FsReq) (s : State W) : Int × State W :=
  match fs.fsCallback req with
  | none => (0,s)
  | some callback =>
    let ans := callback m s.drv
    (ans.res,s.returned ans.drv (.fs m req ans.res))

def vfsMountBody (mountp : Option W.Mnt) (s : State W) : Option (Int × State W) := do
  let (ret,s) ← checkMount mountp s
  if ret < 0 then
    some (ret,s)
  else
    let m ← mountp
    let fs ← (s.mounts m).fs
    let (res,s) := callFs fs m .mount s
    if res < 0 then
      let s ← s.unlockMount
      some (res,s)
    else
      let s := { s with mountsList := s.mountsList.rpush m }
      let s ← s.unlockMount
      some (0,s)

/-- `vfs_format` up to the callback: the check, and the unlock when it passed. -/
def vfsFormatCheck (mountp : Option W.Mnt) (s : State W) : Option (Int × State W) := do
  let (ret,s) ← checkMount mountp s
  if ret < 0 then
    some (ret,s)
  else
    let s ← s.unlockMount
    some (ret,s)

/-- `vfs_umount` up to the point where it takes the mutex again. -/
def vfsUmountCheck (mountp : Option W.Mnt) (s : State W) : Option (Int × State W) := do
  let (ret,s) ← checkMount mountp s
  if ret = 0 then
    let s ← s.unlockMount
    some (ret,s)
  else
    some (ret,s)

/-- `vfs_umount` from where it takes the mutex again. -/
def vfsUmountBody (m : W.Mnt) (force : Bool) (s : State W) : Option (Int × State W) := do
  let s := s.lockMount
  if (s.mounts m).openFiles > 0 ∧ ¬force then
    let s ← s.unlockMount
    some (-EBUSY,s)
  else
    let fs ← (s.mounts m).fs
    let (res,s) := callFs fs m .umount s
    if res < 0 then
      let s ← s.unlockMount
      some (res,s)
    else
      let (node,mountsList) ← s.mountsList.remove (listBound W) m
      let s := { s with mountsList := mountsList }
      match node with
      | none =>
        let s ← s.unlockMount
        some (-EINVAL,s)
      | some _ =>
        let s ← s.unlockMount
        some (0,s)

/-- The locals of the search: the mount selected so far and the longest match. -/
structure FindAcc (W : World) where
  mountp : Option W.Mnt
  longestMatch : Nat

/-- One round of the search; an error is a null mount point. -/
def findMountRound (mounts : W.Mnt → Mount W) (name : CStr) (acc : FindAcc W) (it : W.Mnt) :
    Except Unit (FindAcc W) :=
  let len := (mounts it).mountPointLen
  if len < acc.longestMatch then
    .ok acc
  else if len > name.length then
    .ok acc
  else if len > 1 ∧ name.at_ len ≠ '/' ∧ name.at_ len ≠ nul then
    .ok acc
  else
    match (mounts it).mountPoint with
    | none => .error ()
    | some mountPoint =>
      if name.strncmpEq mountPoint len then
        .ok ⟨some it,if len > 1 then len else acc.longestMatch⟩
      else
        .ok acc

/-- `_find_mount` up to the unlock: the mount it pinned and the longest match. -/
def findMountBody (name : CStr) (s : State W) :
    Option (Except Int (W.Mnt × Nat) × State W) := do
  let s := s.lockMount
  match s.mountsList.head with
  | none =>
    let s ← s.unlockMount
    some (.error (-ENOENT),s)
  | some last =>
    match walk s.mountsList.next last (findMountRound s.mounts name) (listBound W) last
      ⟨none,0⟩ with
    | none => none
    | some (.error _) => none
    | some (.ok acc) =>
      match acc.mountp with
      | none =>
        let s ← s.unlockMount
        some (.error (-ENOENT),s)
      | some m =>
        let s ← (s.pin m).unlockMount
        some (.ok (m,acc.longestMatch),s)

/-! What the regions do, given the sequence of mounts that the list stands for. -/

/-- The mount point that `check_mount` accepts. -/
def Mount.accepted (o : Mount W) : Option CStr :=
  if o.fs.isSome then o.mountPoint.filter fun p => p.at_ 0 = '/' else none

/-- The list stands for `xs`, and every mount in it has passed `check_mount`. -/
structure State.Listed (s : State W) (xs : List W.Mnt) : Prop where
  repr : s.mountsList.Repr xs
  accepted : ∀ m ∈ xs,∃ p,(s.mounts m).accepted = some p ∧ (s.mounts m).mountPointLen = p.length

theorem Mount.accepted_eq_some {o : Mount W} {p : CStr} :
    o.accepted = some p ↔ o.fs.isSome ∧ o.mountPoint = some p ∧ p.at_ 0 = '/' := by
  cases hfs : o.fs <;> simp [accepted,hfs,Option.filter_eq_some_iff]

theorem State.Listed.length_le {s : State W} {xs : List W.Mnt} (h : s.Listed xs) :
    xs.length ≤ listBound W := h.repr.nodup.length_le_card

/-- `clist_find` finds the mount in the list. -/
def State.Mounted (s : State W) (m : W.Mnt) : Prop :=
  s.mountsList.find (listBound W) m = some (some m)

instance (s : State W) (m : W.Mnt) : Decidable (s.Mounted m) :=
  inferInstanceAs (Decidable (_ = _))

theorem State.Listed.mounted_iff {s : State W} {xs : List W.Mnt} (h : s.Listed xs) (m : W.Mnt) :
    s.Mounted m ↔ m ∈ xs := by
  unfold Mounted
  rw [h.repr.find h.length_le]
  by_cases hm : m ∈ xs <;> simp [hm]

/-- The state with `mount_point_len` set as `check_mount` sets it. -/
def State.withLen (s : State W) (m : W.Mnt) (p : CStr) : State W :=
  s.modifyMount m fun o => { o with mountPointLen := p.length }

@[simp] theorem State.unlockMount_lockMount (s : State W) : s.lockMount.unlockMount = some s := rfl

theorem State.Listed.withLen_eq {s : State W} {xs : List W.Mnt} {m : W.Mnt} {p : CStr}
    (h : s.Listed xs) (hm : m ∈ xs) (hp : (s.mounts m).accepted = some p) : s.withLen m p = s := by
  obtain ⟨p',hp',hlen⟩ := h.accepted m hm
  obtain rfl : p' = p := by simpa [hp] using hp'.symm
  simp [withLen,modifyMount,← hlen]

theorem checkMount_invalid {mountp : Option W.Mnt} {s : State W}
    (h : ∀ m ∈ mountp,(s.mounts m).accepted = none) :
    checkMount mountp s = some (-EINVAL,s) := by
  cases mountp with
  | none => rfl
  | some m =>
    have hm := h m rfl
    simp only [checkMount]
    cases hfs : (s.mounts m).fs with
    | none => rfl
    | some fs =>
      cases hp : (s.mounts m).mountPoint with
      | none => rfl
      | some p =>
        have hslash : p.at_ 0 ≠ '/' := by simpa [Mount.accepted,hfs,hp] using hm
        simp only [hslash,ne_eq,not_false_eq_true,if_true]

theorem checkMount_accepted {m : W.Mnt} {s : State W} {xs : List W.Mnt} {p : CStr}
    (h : s.Listed xs) (hp : (s.mounts m).accepted = some p) :
    checkMount (some m) s =
      some (if m ∈ xs then (-EBUSY,s) else (0,(s.withLen m p).lockMount)) := by
  obtain ⟨hfs,hpoint,hslash⟩ := Mount.accepted_eq_some.mp hp
  obtain ⟨fs,hfs⟩ := Option.isSome_iff_exists.mp hfs
  have hfind : (s.withLen m p).lockMount.mountsList.find (listBound W) m =
      some (if m ∈ xs then some m else none) := h.repr.find h.length_le m
  simp only [checkMount,hfs,hpoint,hslash,ne_eq,not_true_eq_false,if_false]
  change (match (s.withLen m p).lockMount.mountsList.find (listBound W) m with
    | none => none
    | some (some _) => (s.withLen m p).lockMount.unlockMount.map fun s => (-EBUSY,s)
    | some none => some (0,(s.withLen m p).lockMount)) = _
  rw [hfind]
  by_cases hm : m ∈ xs
  · simp [hm,h.withLen_eq hm hp]
  · simp [hm]

@[simp] theorem State.withLen_accepted (s : State W) (m n : W.Mnt) (p : CStr) :
    ((s.withLen m p).mounts n).accepted = (s.mounts n).accepted := by
  by_cases hn : n = m
  · subst n; simp [withLen,modifyMount,Mount.accepted]
  · simp [withLen,modifyMount,hn]

theorem State.Listed.withLen {s : State W} {xs : List W.Mnt} {m : W.Mnt} {p : CStr}
    (h : s.Listed xs) (hm : m ∉ xs) : (s.withLen m p).Listed xs := by
  refine ⟨h.repr,?_⟩
  intro n hn
  have hnm : n ≠ m := fun he => hm (he ▸ hn)
  simpa [State.withLen,modifyMount,hnm] using h.accepted n hn

theorem callFs_eq (fs : FileSystem W) (m : W.Mnt) (req : FsReq) (s : State W) :
    ∃ drv calls,(callFs fs m req s).2 = { s with drv := drv, calls := calls } := by
  unfold callFs
  split
  · exact ⟨s.drv,s.calls,rfl⟩
  · exact ⟨_,_,rfl⟩

/-- Everything one `vfs_mount` can do to a list that stands for `xs`. -/
inductive MountOutcome (s : State W) (xs : List W.Mnt) : Option W.Mnt → Int → State W → Prop
  | invalid {mountp} (h : ∀ m ∈ mountp,(s.mounts m).accepted = none) :
      MountOutcome s xs mountp (-EINVAL) s
  | busy {m} (hm : m ∈ xs) : MountOutcome s xs (some m) (-EBUSY) s
  | refused {m p fs} (hm : m ∉ xs) (hp : (s.mounts m).accepted = some p)
      (hfs : (s.mounts m).fs = some fs) (hres : (callFs fs m .mount (s.withLen m p)).1 < 0) :
      MountOutcome s xs (some m) (callFs fs m .mount (s.withLen m p)).1
        (callFs fs m .mount (s.withLen m p)).2
  | mounted {m p fs} (hm : m ∉ xs) (hp : (s.mounts m).accepted = some p)
      (hfs : (s.mounts m).fs = some fs) (hres : 0 ≤ (callFs fs m .mount (s.withLen m p)).1) :
      MountOutcome s xs (some m) 0
        { (callFs fs m .mount (s.withLen m p)).2 with mountsList := s.mountsList.rpush m }

theorem callFs_lockMount (fs : FileSystem W) (m : W.Mnt) (req : FsReq) (s : State W) :
    callFs fs m req s.lockMount = ((callFs fs m req s).1,(callFs fs m req s).2.lockMount) := by
  unfold callFs
  split <;> rfl

theorem vfsMountBody_outcome {s : State W} {xs : List W.Mnt} (h : s.Listed xs)
    (mountp : Option W.Mnt) :
    ∃ r s',vfsMountBody mountp s = some (r,s') ∧ MountOutcome s xs mountp r s' := by
  by_cases hinv : ∀ m ∈ mountp,(s.mounts m).accepted = none
  · exact ⟨_,_,by simp [vfsMountBody,checkMount_invalid hinv,EINVAL],.invalid hinv⟩
  · obtain ⟨m,rfl,p,hp⟩ : ∃ m,mountp = some m ∧ ∃ p,(s.mounts m).accepted = some p := by
      simpa [Option.ne_none_iff_exists'] using hinv
    by_cases hm : m ∈ xs
    · exact ⟨_,_,by simp [vfsMountBody,checkMount_accepted h hp,hm,EBUSY],.busy hm⟩
    · obtain ⟨fs,hfs⟩ := Option.isSome_iff_exists.mp (Mount.accepted_eq_some.mp hp).1
      have hfs' : ((s.withLen m p).lockMount.mounts m).fs = some fs := by
        simp [State.withLen,State.lockMount,State.modifyMount,hfs]
      obtain ⟨drv,calls,hcall⟩ := callFs_eq fs m .mount (s.withLen m p)
      by_cases hres : (callFs fs m .mount (s.withLen m p)).1 < 0
      · refine ⟨_,_,?_,.refused hm hp hfs hres⟩
        simp [vfsMountBody,checkMount_accepted h hp,hm,hfs',callFs_lockMount,hres]
      · refine ⟨_,_,?_,.mounted hm hp hfs (not_lt.mp hres)⟩
        simp [vfsMountBody,checkMount_accepted h hp,hm,hfs',callFs_lockMount,hres,hcall]
        rfl

/-- What `vfs_format` and `vfs_umount` do up to the mutex being free again. -/
inductive CheckOutcome (s : State W) (xs : List W.Mnt) : Option W.Mnt → Int → State W → Prop
  | invalid {mountp} (h : ∀ m ∈ mountp,(s.mounts m).accepted = none) :
      CheckOutcome s xs mountp (-EINVAL) s
  | busy {m p} (hm : m ∈ xs) (hp : (s.mounts m).accepted = some p) :
      CheckOutcome s xs (some m) (-EBUSY) s
  | passed {m p} (hm : m ∉ xs) (hp : (s.mounts m).accepted = some p) :
      CheckOutcome s xs (some m) 0 (s.withLen m p)

private theorem checkMount_outcome {s : State W} {xs : List W.Mnt} (h : s.Listed xs)
    (mountp : Option W.Mnt) : ∃ r s',CheckOutcome s xs mountp r s' ∧
      checkMount mountp s = some (r,if r = 0 then s'.lockMount else s') := by
  by_cases hinv : ∀ m ∈ mountp,(s.mounts m).accepted = none
  · exact ⟨_,_,.invalid hinv,by simp [checkMount_invalid hinv,EINVAL]⟩
  · obtain ⟨m,rfl,p,hp⟩ : ∃ m,mountp = some m ∧ ∃ p,(s.mounts m).accepted = some p := by
      simpa [Option.ne_none_iff_exists'] using hinv
    by_cases hm : m ∈ xs
    · exact ⟨_,_,.busy hm hp,by simp [checkMount_accepted h hp,hm,EBUSY]⟩
    · exact ⟨_,_,.passed hm hp,by simp [checkMount_accepted h hp,hm]⟩

theorem CheckOutcome.res {s s' : State W} {xs : List W.Mnt} {mountp : Option W.Mnt} {r : Int}
    (h : CheckOutcome s xs mountp r s') : r = 0 ∨ r < 0 := by
  cases h <;> simp [EINVAL,EBUSY]

theorem vfsFormatCheck_outcome {s : State W} {xs : List W.Mnt} (h : s.Listed xs)
    (mountp : Option W.Mnt) :
    ∃ r s',vfsFormatCheck mountp s = some (r,s') ∧ CheckOutcome s xs mountp r s' := by
  obtain ⟨r,s',hc,he⟩ := checkMount_outcome h mountp
  refine ⟨r,s',?_,hc⟩
  rcases hc.res with rfl | hr
  · simp [vfsFormatCheck,he]
  · simp [vfsFormatCheck,he,hr,ne_of_lt hr]

theorem vfsUmountCheck_outcome {s : State W} {xs : List W.Mnt} (h : s.Listed xs)
    (mountp : Option W.Mnt) :
    ∃ r s',vfsUmountCheck mountp s = some (r,s') ∧ CheckOutcome s xs mountp r s' := by
  obtain ⟨r,s',hc,he⟩ := checkMount_outcome h mountp
  refine ⟨r,s',?_,hc⟩
  by_cases hr : r = 0 <;> simp [vfsUmountCheck,he,hr]

/-- Everything that `vfs_umount` can do once it has taken the mutex again. -/
inductive UmountOutcome (s : State W) (xs : List W.Mnt) (m : W.Mnt) (force : Bool)
    (fs : FileSystem W) : Int → State W → Prop
  | busy (hopen : 0 < (s.mounts m).openFiles) (hforce : force = false) :
      UmountOutcome s xs m force fs (-EBUSY) s
  | refused (hfree : (s.mounts m).openFiles = 0 ∨ force = true)
      (hres : (callFs fs m .umount s).1 < 0) :
      UmountOutcome s xs m force fs (callFs fs m .umount s).1 (callFs fs m .umount s).2
  | unlisted (hfree : (s.mounts m).openFiles = 0 ∨ force = true)
      (hres : 0 ≤ (callFs fs m .umount s).1) (hm : m ∉ xs) :
      UmountOutcome s xs m force fs (-EINVAL) (callFs fs m .umount s).2
  | removed {l} (hfree : (s.mounts m).openFiles = 0 ∨ force = true)
      (hres : 0 ≤ (callFs fs m .umount s).1) (hm : m ∈ xs) (hl : l.Repr (xs.erase m)) :
      UmountOutcome s xs m force fs 0 { (callFs fs m .umount s).2 with mountsList := l }

theorem vfsUmountBody_outcome {s : State W} {xs : List W.Mnt} {m : W.Mnt}
    {fs : FileSystem W} (h : s.Listed xs) (hfs : (s.mounts m).fs = some fs) (force : Bool) :
    ∃ r s',vfsUmountBody m force s = some (r,s') ∧ UmountOutcome s xs m force fs r s' := by
  have hfs' : (s.lockMount.mounts m).fs = some fs := hfs
  have hopen' : (s.lockMount.mounts m).openFiles = (s.mounts m).openFiles := rfl
  obtain ⟨drv,calls,hcall⟩ := callFs_eq fs m .umount s
  by_cases hopen : 0 < (s.mounts m).openFiles ∧ force = false
  · refine ⟨_,_,?_,.busy hopen.1 hopen.2⟩
    simp [vfsUmountBody,hopen',hopen.1,hopen.2]
  have hfree : (s.mounts m).openFiles = 0 ∨ force = true := by
    by_contra hno
    rw [not_or] at hno
    exact hopen ⟨UInt16.pos_iff_ne_zero.mpr hno.1,by simpa using hno.2⟩
  by_cases hres : (callFs fs m .umount s).1 < 0
  · refine ⟨_,_,?_,.refused hfree hres⟩
    simp [vfsUmountBody,hopen',hopen,hfs',callFs_lockMount,hres]
  · have hlist : (callFs fs m .umount s).2.lockMount.mountsList = s.mountsList := by
      rw [hcall]
      rfl
    rcases h.repr.remove h.length_le m with ⟨hm,hrem⟩ | ⟨hm,l,hrem,hl⟩
    · refine ⟨_,_,?_,.unlisted hfree (not_lt.mp hres) hm⟩
      simp [vfsUmountBody,hopen',hopen,hfs',callFs_lockMount,hres,hlist,hrem]
      rw [hcall]
      rfl
    · refine ⟨_,_,?_,.removed hfree (not_lt.mp hres) hm hl⟩
      simp [vfsUmountBody,hopen',hopen,hfs',callFs_lockMount,hres,hlist,hrem]
      rw [hcall]
      rfl

theorem findMountRound_ok {mounts : W.Mnt → Mount W} {it : W.Mnt} {p : CStr}
    (h : (mounts it).mountPoint = some p) (name : CStr) (acc : FindAcc W) :
    ∃ acc',findMountRound mounts name acc it = .ok acc' ∧
      (acc'.mountp = some it ∨ acc'.mountp = acc.mountp) := by
  simp only [findMountRound,h]
  split
  · exact ⟨_,rfl,Or.inr rfl⟩
  split
  · exact ⟨_,rfl,Or.inr rfl⟩
  split
  · exact ⟨_,rfl,Or.inr rfl⟩
  split
  · exact ⟨_,rfl,Or.inl rfl⟩
  · exact ⟨_,rfl,Or.inr rfl⟩

theorem findMountRound_foldlM {mounts : W.Mnt → Mount W} {xs : List W.Mnt}
    (h : ∀ m ∈ xs,∃ p,(mounts m).mountPoint = some p) (name : CStr) (acc : FindAcc W) :
    ∃ acc',xs.foldlM (findMountRound mounts name) acc = .ok acc' ∧
      ∀ m,acc'.mountp = some m → m ∈ xs ∨ acc.mountp = some m := by
  induction xs generalizing acc with
  | nil => exact ⟨acc,rfl,fun m hm => Or.inr hm⟩
  | cons it xs ih =>
    obtain ⟨p,hp⟩ := h it (by simp)
    obtain ⟨acc₁,hr,hacc₁⟩ := findMountRound_ok hp name acc
    obtain ⟨acc₂,hf,hacc₂⟩ := ih (fun m hm => h m (by simp [hm])) acc₁
    refine ⟨acc₂,?_,?_⟩
    · rw [List.foldlM_cons,hr]
      exact hf
    · intro m hm
      rcases hacc₂ m hm with hm | hm
      · exact Or.inl (by simp [hm])
      · rcases hacc₁ with he | he
        · exact Or.inl (by simp [Option.some.inj (he.symm.trans hm)])
        · exact Or.inr (he.symm.trans hm)

theorem State.Listed.mountPoint {s : State W} {xs : List W.Mnt} (h : s.Listed xs) :
    ∀ m ∈ xs,∃ p,(s.mounts m).mountPoint = some p := by
  intro m hm
  obtain ⟨p,hp,_⟩ := h.accepted m hm
  exact ⟨p,(Mount.accepted_eq_some.mp hp).2.1⟩

/-- The search goes once over the sequence of mounts and pins the one it selected. -/
theorem findMountBody_eq {s : State W} {xs : List W.Mnt} (h : s.Listed xs) {name : CStr}
    {acc : FindAcc W} (hacc : xs.foldlM (findMountRound s.mounts name) ⟨none,0⟩ = .ok acc) :
    findMountBody name s = some (match acc.mountp with
      | none => (.error (-ENOENT),s)
      | some m => (.ok (m,acc.longestMatch),s.pin m)) := by
  have hhead : s.lockMount.mountsList.head = s.mountsList.head := rfl
  simp only [findMountBody,hhead]
  cases hl : s.mountsList.head with
  | none =>
    obtain rfl := h.repr.head_eq_none.mp hl
    obtain rfl : ⟨none,0⟩ = acc := by simpa [pure,Except.pure] using hacc
    simp
  | some last =>
    obtain ⟨ys,rfl⟩ := h.repr.snoc hl
    have hwalk := h.repr.ring.walk_eq (findMountRound s.mounts name) (listBound W) ⟨none,0⟩
      h.length_le
    rw [hacc] at hwalk
    change (match walk s.mountsList.next last (findMountRound s.mounts name) (listBound W) last
      ⟨none,0⟩ with
      | none => none
      | some (.error _) => none
      | some (.ok acc) => _) = _
    rw [hwalk]
    cases hm : acc.mountp with
    | none => simp [hm]
    | some m => simp [hm]; rfl

/-- The step left the tables alone and, of the mounts, changed at most a length. -/
structure State.Frame (s s' : State W) : Prop where
  files : s'.files = s.files
  dirs : s'.dirs = s.dirs
  fs : ∀ m,(s'.mounts m).fs = (s.mounts m).fs
  openFiles : ∀ m,(s'.mounts m).openFiles = (s.mounts m).openFiles

theorem State.Frame.refl (s : State W) : s.Frame s := ⟨rfl,rfl,fun _ => rfl,fun _ => rfl⟩

theorem State.Frame.callFs {s s' : State W} (h : s.Frame s') (fs : FileSystem W) (m : W.Mnt)
    (req : FsReq) (l : Clist W.Mnt) : s.Frame { (callFs fs m req s').2 with mountsList := l } := by
  obtain ⟨drv,calls,he⟩ := callFs_eq fs m req s'
  rw [he]
  exact ⟨h.files,h.dirs,h.fs,h.openFiles⟩

theorem State.frame_withLen (s : State W) (m : W.Mnt) (p : CStr) : s.Frame (s.withLen m p) := by
  refine ⟨rfl,rfl,?_,?_⟩
  all_goals
    intro n
    by_cases hn : n = m
    · subst n; simp [withLen,modifyMount]
    · simp [withLen,modifyMount,hn]

theorem listed_callFs {s : State W} {ys : List W.Mnt}
    (fs : FileSystem W) (m : W.Mnt) (req : FsReq) {l : Clist W.Mnt} (hl : l.Repr ys)
    (hys : ∀ n ∈ ys,∃ p,(s.mounts n).accepted = some p ∧
      (s.mounts n).mountPointLen = p.length) :
    State.Listed { (callFs fs m req s).2 with mountsList := l } ys := by
  obtain ⟨drv,calls,he⟩ := callFs_eq fs m req s
  rw [he]
  exact ⟨hl,hys⟩

theorem callFs_mountsList (fs : FileSystem W) (m : W.Mnt) (req : FsReq) (s : State W) :
    { (callFs fs m req s).2 with mountsList := s.mountsList } = (callFs fs m req s).2 := by
  obtain ⟨drv,calls,he⟩ := callFs_eq fs m req s
  rw [he]

/-- `vfs_mount` appends its mount when it returns 0 and leaves the list alone otherwise. -/
theorem MountOutcome.listed {s s' : State W} {xs : List W.Mnt} {mountp : Option W.Mnt} {r : Int}
    (h : s.Listed xs) (ho : MountOutcome s xs mountp r s') :
    s'.Listed (if r = 0 then xs ++ mountp.toList else xs) ∧ s.Frame s' := by
  cases ho with
  | invalid => exact ⟨by simpa [EINVAL] using h,.refl s⟩
  | busy => exact ⟨by simpa [EBUSY] using h,.refl s⟩
  | @refused m p fs hm hp _ hres =>
    rw [if_neg (ne_of_lt hres)]
    have hw := h.withLen (p := p) hm
    rw [← callFs_mountsList]
    exact ⟨listed_callFs fs m .mount hw.repr hw.accepted,(s.frame_withLen m p).callFs fs m .mount _⟩
  | @mounted m p fs hm hp _ _ =>
    have hw := h.withLen (p := p) hm
    refine ⟨?_,(s.frame_withLen m p).callFs fs m .mount _⟩
    refine listed_callFs fs m .mount (by simpa using h.repr.rpush hm) ?_
    intro n hn
    rcases List.mem_append.mp hn with hn | hn
    · exact hw.accepted n hn
    · obtain rfl : n = m := by simpa using hn
      exact ⟨p,by simpa using hp,by simp [State.withLen,State.modifyMount]⟩

theorem CheckOutcome.listed {s s' : State W} {xs : List W.Mnt} {mountp : Option W.Mnt} {r : Int}
    (h : s.Listed xs) (ho : CheckOutcome s xs mountp r s') : s'.Listed xs ∧ s.Frame s' := by
  cases ho with
  | invalid => exact ⟨h,.refl s⟩
  | busy => exact ⟨h,.refl s⟩
  | @passed m p hm _ => exact ⟨h.withLen hm,s.frame_withLen m p⟩

/-- `vfs_umount` removes its mount when it returns 0 and leaves the list alone otherwise. -/
theorem UmountOutcome.listed {s s' : State W} {xs : List W.Mnt} {m : W.Mnt} {force : Bool}
    {fs : FileSystem W} {r : Int} (h : s.Listed xs) (ho : UmountOutcome s xs m force fs r s') :
    s'.Listed (if r = 0 then xs.erase m else xs) ∧ s.Frame s' := by
  have hf := State.Frame.callFs (.refl s) fs m .umount
  cases ho with
  | busy => exact ⟨by simpa [EBUSY] using h,.refl s⟩
  | refused _ hres =>
    rw [if_neg (ne_of_lt hres),← callFs_mountsList]
    exact ⟨listed_callFs fs m .umount h.repr h.accepted,hf _⟩
  | unlisted =>
    rw [← callFs_mountsList]
    exact ⟨by simpa [EINVAL] using listed_callFs fs m .umount h.repr h.accepted,hf _⟩
  | @removed l _ _ _ hl =>
    refine ⟨listed_callFs fs m .umount hl ?_,hf _⟩
    intro n hn
    exact h.accepted n (List.mem_of_mem_erase hn)

end UcVfs
