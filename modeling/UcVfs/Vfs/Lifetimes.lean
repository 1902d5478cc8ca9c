import UcVfs.Vfs.Runs
import Mathlib.Algebra.Order.BigOperators.Group.Finset

/-!
# No operation outlives its mount

A pin is taken inside the mount list lock and released outside it; `vfs_umount` without force
checks the counter, calls the driver and unlinks the mount inside one region. A pinned mount
therefore stays in the list.
-/

namespace UcVfs

open Framework

variable {W : World}

/-- Proper steps without forced unmounts, fewer pins on each mount than its counter holds. -/
def Unforced (c : VConfig W) (l : VLabel W) : Prop :=
  Proper c l ∧ (∀ m,totalPins c.pool ((vfs W).locals c) m < 65536) ∧
    match l with
    | .act _ (.umount _ force) _ => force = false
    | _ => True

def VLabel.forces : VLabel W → Bool
  | .act _ (.umount _ force) _ => force
  | _ => false

theorem unforced_iff {c : VConfig W} {l : VLabel W} : Unforced c l ↔
    Proper c l ∧ (∀ m,totalPins c.pool ((vfs W).locals c) m < 65536) ∧ VLabel.forces l = false := by
  refine and_congr_right' (and_congr_right' ?_)
  unfold VLabel.forces
  split <;> simp

instance (c : VConfig W) (l : VLabel W) : Decidable (Unforced c l) :=
  decidable_of_iff _ unforced_iff.symm

/-- The task is about to call the driver on an open file. -/
def VConfig.callsFile (c : VConfig W) (i : W.Task) : Bool :=
  match c.task i with
  | .busy _ _ (.step (.fileCall _ _) _) => true
  | _ => false

theorem VConfig.callsFile_iff {c : VConfig W} {i : W.Task} : c.callsFile i ↔
    ∃ op held f req next,c.task i = .busy op held (.step (.fileCall f req) next) := by
  constructor
  · intro h
    unfold callsFile at h
    split at h
    next op held f req next hi => exact ⟨op,held,f,req,next,hi⟩
    next => cases h
  · rintro ⟨op,held,f,req,next,hi⟩
    simp [callsFile,hi]

/-- A pinned mount is in the list. -/
def Pinned (K : Pool W) (L : W.Task → Hold W) (s : State W) : Prop :=
  ∀ m,0 < totalPins K L m → s.Mounted m

section Steps

variable {F : W.Mnt → Option (FileSystem W)} {K K' : Pool W} {L : W.Task → Hold W}
  {i : W.Task} {h : Hold W} {s s' : State W}

theorem totalPins_eq (hpins : ∀ m,K'.pins m + h.pins m = K.pins m + (L i).pins m) (m : W.Mnt) :
    totalPins K' (Function.update L i h) m = totalPins K L m := ledger_eq (hpins m)

theorem totalPins_update (K : Pool W) (L : W.Task → Hold W) (i : W.Task) (h : Hold W)
    (m : W.Mnt) :
    totalPins K (Function.update L i h) m + (L i).pins m = totalPins K L m + h.pins m := by
  have := ledger_update (K.pins m) (K.pins m) (fun h => h.pins m) L i h
  simp only [totalPins]
  omega

theorem pins_le_totalPins (K : Pool W) (L : W.Task → Hold W) (i : W.Task) (m : W.Mnt) :
    K.pins m + (L i).pins m ≤ totalPins K L m :=
  weight_le_ledger (K.pins m) (fun h => h.pins m) L i

/-- Only `_find_mount` takes a pin. -/
theorem next_pins_le (h : Hold W) (x : Action W) (r : x.Resp)
    (hx : ∀ name,x ≠ .findMount name) (m : W.Mnt) : (h.next x r).pins m ≤ h.pins m := by
  have hnext := h.next_follows x r
  generalize h.next x r = h' at hnext
  cases hnext with
  | found name m => exact absurd rfl (hx name)
  | unpinned n => exact Nat.sub_le _ _
  | _ => exact le_refl _

theorem CheckOutcome.mountsList {xs : List W.Mnt} {mountp : Option W.Mnt} {r : Int}
    (ho : CheckOutcome s xs mountp r s') : s'.mountsList = s.mountsList := by
  cases ho <;> rfl

/-- Only the bodies of `vfs_mount` and `vfs_umount` touch the list. -/
theorem exec_mountsList {x : Action W} {r : x.Resp} {xs : List W.Mnt} (hxs : s.Listed xs)
    (hexec : x.exec i s = some (r,s')) (hm : ∀ mountp,x ≠ .mount mountp)
    (hu : ∀ m force,x ≠ .umount m force) : s'.mountsList = s.mountsList := by
  cases x with
  | fault => simp [Action.exec] at hexec
  | mount mountp => exact absurd rfl (hm mountp)
  | umount m force => exact absurd rfl (hu m force)
  | findMount name =>
    obtain ⟨acc,hacc,_⟩ := findMountRound_foldlM hxs.mountPoint name ⟨none,0⟩
    have he := findMountBody_eq hxs hacc
    rw [Action.exec,he] at hexec
    cases hmp : acc.mountp with
    | none =>
      simp only [hmp,Option.some.injEq,Prod.mk.injEq] at hexec
      rw [← hexec.2]
    | some m =>
      simp only [hmp,Option.some.injEq,Prod.mk.injEq] at hexec
      rw [← hexec.2]
      rfl
  | formatCheck mountp =>
    obtain ⟨r',s₁,he,ho⟩ := vfsFormatCheck_outcome hxs mountp
    obtain ⟨_,rfl⟩ : r' = r ∧ s₁ = s' := by simpa [Action.exec,he] using hexec
    exact ho.mountsList
  | umountCheck mountp =>
    obtain ⟨r',s₁,he,ho⟩ := vfsUmountCheck_outcome hxs mountp
    obtain ⟨_,rfl⟩ : r' = r ∧ s₁ = s' := by simpa [Action.exec,he] using hexec
    exact ho.mountsList
  | initFd fOp m flags =>
    rcases vfsOpenBody_outcome i fOp m flags s with ⟨_,he⟩ | ⟨fd,_,he⟩
    · simp only [Action.exec,he,Option.some.injEq,Prod.mk.injEq] at hexec
      rw [← hexec.2]
    · simp only [Action.exec,he,Option.some.injEq,Prod.mk.injEq] at hexec
      rw [← hexec.2]
      rfl
  | fsCall m req | fileCall f req | dirCall d req =>
    obtain ⟨callback,_,hcb⟩ := Option.map_eq_some_iff.mp hexec
    have hs := congrArg (fun v => v.2.mountsList) hcb
    exact hs.symm
  | fs m | unpin m | file f | setPos f pos | clearTcb f | dir d | initDir d m dOp
  | clearDir d =>
    simp only [Action.exec,Option.some.injEq,Prod.mk.injEq] at hexec
    exact hexec.2 ▸ rfl

theorem State.Mounted.congr {m : W.Mnt} (hm : s.Mounted m)
    (hlist : s'.mountsList = s.mountsList) : s'.Mounted m := by
  unfold State.Mounted at *
  rwa [hlist]

theorem Pinned.transfer (hP : Pinned K L s)
    (hpins : ∀ m,K'.pins m + h.pins m = K.pins m + (L i).pins m) :
    Pinned K' (Function.update L i h) s := by
  intro m hm
  rw [totalPins_eq hpins] at hm
  exact hP m hm

/-- An unforced step keeps pinned mounts in the list. -/
theorem Pinned.act {x : Action W} {r : x.Resp} (hG : Good F K L s) (hP : Pinned K L s)
    (hi : L i = h) (hpre : mayTake F h x) (hexec : x.exec i s = some (r,s'))
    (hbound : ∀ m,totalPins K L m < 65536) (hforce : ∀ m force,x = .umount m force → force = false) :
    Pinned K (Function.update L i (h.next x r)) s' := by
  subst h
  obtain ⟨xs,hxs⟩ := hG.listed
  intro m hm
  have hsum := totalPins_update K L i ((L i).next x r) m
  by_cases hx : ∃ name,x = .findMount name
  · obtain ⟨name,rfl⟩ := hx
    have hlist := exec_mountsList hxs hexec (by simp) (by simp)
    obtain ⟨acc,hacc,hmem⟩ := findMountRound_foldlM hxs.mountPoint name ⟨none,0⟩
    have he := findMountBody_eq hxs hacc
    rw [Action.exec,he] at hexec
    by_cases hpos : 0 < totalPins K L m
    · exact (hP m hpos).congr hlist
    · cases hmp : acc.mountp with
      | none =>
        simp only [hmp,Option.some.injEq,Prod.mk.injEq] at hexec
        rw [← hexec.1] at hsum hm
        simp only [Hold.next] at hsum hm
        omega
      | some n =>
        simp only [hmp,Option.some.injEq,Prod.mk.injEq] at hexec
        rw [← hexec.1] at hsum hm
        simp only [Hold.next,Pi.add_apply] at hsum hm
        have hmn : m = n := by
          by_contra hne
          rw [one_of_ne hne] at hsum
          omega
        subst m
        have hin : n ∈ xs := by simpa using hmem n hmp
        exact ((hxs.mounted_iff n).mpr hin).congr hlist
  · have hle := next_pins_le (L i) x r (fun name he => hx ⟨name,he⟩) m
    have hpos : 0 < totalPins K L m := by omega
    have hmounted := hP m hpos
    have hmem := (hxs.mounted_iff m).mp hmounted
    by_cases hmount : ∃ mountp,x = .mount mountp
    · obtain ⟨mountp,rfl⟩ := hmount
      obtain ⟨r',s₁,he,ho⟩ := vfsMountBody_outcome hxs mountp
      obtain ⟨_,rfl⟩ : r' = r ∧ s₁ = s' := by simpa [Action.exec,he] using hexec
      rw [(ho.listed hxs).1.mounted_iff]
      split
      · exact List.mem_append_left _ hmem
      · exact hmem
    by_cases humount : ∃ n force,x = .umount n force
    · obtain ⟨n,force,rfl⟩ := humount
      obtain rfl := hforce n force rfl
      obtain ⟨fs,hfs⟩ := Option.isSome_iff_exists.mp hpre
      obtain ⟨r',s₁,he,ho⟩ := vfsUmountBody_outcome hxs ((hG.pins.fs n).trans hfs) false
      obtain ⟨rfl,rfl⟩ : r' = r ∧ s₁ = s' := by simpa [Action.exec,he] using hexec
      rw [(ho.listed hxs).1.mounted_iff]
      split
      next hr =>
        have hfree : (s.mounts n).openFiles = 0 := by
          cases ho with
          | busy => simp [EBUSY] at hr
          | refused hfree | unlisted hfree | removed hfree => simpa using hfree
        have hmn : m ≠ n := by
          rintro rfl
          have hcount := congrArg UInt16.toNat ((hG.pins.count m).symm.trans hfree)
          have hb := hbound m
          simp [Nat.mod_eq_of_lt hb] at hcount
          omega
        exact (List.mem_erase_of_ne hmn).mpr hmem
      · exact hmem
    · exact hmounted.congr (exec_mountsList hxs hexec (fun mp he => hmount ⟨mp,he⟩)
        (fun n force he => humount ⟨n,force,he⟩))

end Steps

theorem pinned_reachable {s : State W} (h : Fresh s) {c : VConfig W}
    (hc : (vfs W).Reachable Unforced (initial s) c) :
    VInv s.fileSystems c ∧ Pinned c.pool ((vfs W).locals c) c.shared := by
  have hinv := inv_reachable (fun _ _ hl => hl.1) h hc
  refine ⟨hinv,?_⟩
  induction hc with
  | init =>
    intro m hm
    have hzero : totalPins (initial s).pool ((vfs W).locals (initial s)) m = 0 := by
      simp [totalPins,ledger,Pool.pins,initial,Pool.empty,System.locals,System.held,vfs,
        Hold.idle,FdHandle.pins,DirHandle.pins]
    omega
  | @step c l c' hc hok hstep ih =>
    have hinv₀ := inv_reachable (fun _ _ hl => hl.1) h hc
    have hP := ih hinv₀
    cases hstep with
    | @start i op hidle =>
      rw [System.locals_update _ _ c.task i _ c rfl]
      apply hP.transfer
      intro m
      have hzero : ((vfs W).locals c i).pins m = 0 := by
        rw [System.locals_idle hidle]
        rfl
      have hb : ((vfs W).begin c.pool i op).1.pins m +
          ((vfs W).begin c.pool i op).2.pins m = c.pool.pins m := (begins c.pool i op).pins m
      rw [hzero]
      simpa only [System.held,Nat.add_zero] using hb
    | @act i op held x next r s₁ hbusy hexec =>
      have hpre := (hinv₀.obeys i op held _ hbusy).1
      rw [System.locals_update _ _ c.task i _ c rfl]
      apply hP.act hinv₀.good (System.locals_busy hbusy) hpre hexec hok.2.1
      rintro m force rfl
      exact hok.2.2
    | @finish i op held r hbusy =>
      rw [System.locals_update _ _ c.task i _ c rfl]
      apply hP.transfer
      intro m
      have hends := hinv₀.obeys i op held _ hbusy
      have hback : ((vfs W).finish c.pool i op held r).pins m = c.pool.pins m + held.pins m :=
        hinv₀.good.finish_pins (System.locals_busy hbusy) hends.handlePins_le op r m
      have hzero : (vfs W).idle.pins m = 0 := rfl
      rw [System.locals_busy hbusy,← hback]
      simp only [System.held,hzero,Nat.add_zero]

/-- Nothing is open on the mount, and no call is between its `_find_mount` and its release. -/
structure Unused (c : VConfig W) (m : W.Mnt) : Prop where
  fds : ∀ f hd,c.pool.fds f = some hd → hd.mp ≠ m
  dirs : ∀ d hd,c.pool.dirs d = some hd → hd.mp ≠ m
  calls : ∀ i,((vfs W).locals c i).pins m = 0

/-- Callbacks that act on a mount find it in the list, and an unforced unmount removes only a
mount that is not used. -/
structure LifetimeGood (c : VConfig W) : Prop where
  /-- `rename`, `unlink`, `mkdir`, `rmdir` and `stat`. -/
  fsCall : ∀ i op held m req next,c.task i = .busy op held (.step (.fsCall m req) next) →
    req ≠ .format → c.shared.Mounted m
  /-- `open` and the other callbacks on a file object. -/
  fileCall : ∀ i op held f req next,c.task i = .busy op held (.step (.fileCall f req) next) →
    ∃ m,(c.shared.files f).mp = some m ∧ c.shared.Mounted m
  /-- `opendir` and the other callbacks on a DIR object. -/
  dirCall : ∀ i op held d req next,c.task i = .busy op held (.step (.dirCall d req) next) →
    ∃ m,(c.shared.dirs d).mp = some m ∧ c.shared.Mounted m
  removal : ∀ i m c',(vfs W).Step c (.act i (.umount m false) 0) c' →
    (∀ n,totalPins c.pool ((vfs W).locals c) n < 65536) → c.shared.Mounted m ∧
    ¬c'.shared.Mounted m ∧ Unused c m

theorem pool_pins_eq_zero {K : Pool W} {m : W.Mnt} (h : K.pins m = 0) :
    (∀ f hd,K.fds f = some hd → hd.mp ≠ m) ∧ ∀ d hd,K.dirs d = some hd → hd.mp ≠ m := by
  have hf : ∑ f,FdHandle.pins (K.fds f) m = 0 := by
    simp only [Pool.pins] at h
    omega
  have hd : ∑ d,DirHandle.pins (K.dirs d) m = 0 := by
    simp only [Pool.pins] at h
    omega
  constructor
  · rintro f hd hp rfl
    have hzero := (Finset.sum_eq_zero_iff.mp hf) f (Finset.mem_univ f)
    simp [hp,FdHandle.pins] at hzero
  · rintro d hd' hp rfl
    have hzero := (Finset.sum_eq_zero_iff.mp hd) d (Finset.mem_univ d)
    simp [hp,DirHandle.pins] at hzero

/-- For any number of tasks and every interleaving of unforced steps. -/
theorem no_operation_outlives_mount {s : State W} (h : Fresh s) {c : VConfig W}
    (hc : (vfs W).Reachable Unforced (initial s) c) : LifetimeGood c := by
  obtain ⟨hinv,hP⟩ := pinned_reachable h hc
  have hmounted : ∀ i op held p m,c.task i = .busy op held p → 0 < held.pins m →
      c.shared.Mounted m := by
    intro i op held p m hi hpos
    apply hP m
    have := pins_le_totalPins c.pool ((vfs W).locals c) i m
    rw [System.locals_busy hi] at this
    omega
  constructor
  case fsCall =>
    intro i op held m req next hi hreq
    obtain ⟨⟨_,hpins⟩,_⟩ := hinv.obeys i op held _ hi
    exact hmounted i op held _ m hi (hpins hreq)
  case fileCall =>
    intro i op held f req next hi
    obtain ⟨⟨hd,hfd,_,hpos⟩,_⟩ := hinv.obeys i op held _ hi
    have hm := hinv.good.fds.task i f hd (by rw [System.locals_busy hi,hfd])
    exact ⟨hd.mp,hm.mp,hmounted i op held _ hd.mp hi hpos⟩
  case dirCall =>
    intro i op held d req next hi
    obtain ⟨⟨hd,hdir,_,hpos⟩,_⟩ := hinv.obeys i op held _ hi
    have hm := hinv.good.dirs.task i d hd (by rw [System.locals_busy hi,hdir])
    exact ⟨hd.mp,hm.mp,hmounted i op held _ hd.mp hi hpos⟩
  case removal =>
    intro i m c' hstep hbound
    cases hstep with
    | @act i op held x next r s' hbusy hexec =>
      obtain ⟨xs,hxs⟩ := hinv.good.listed
      obtain ⟨fs,hfs⟩ := Option.isSome_iff_exists.mp (hinv.obeys i op held _ hbusy).1
      obtain ⟨r',s₁,he,ho⟩ :=
        vfsUmountBody_outcome hxs ((hinv.good.pins.fs m).trans hfs) false
      obtain ⟨rfl,rfl⟩ : r' = 0 ∧ s₁ = s' := by simpa [vfs,Action.exec,he] using hexec
      have hlist := (ho.listed hxs).1
      rw [if_pos rfl] at hlist
      have hremoved : m ∈ xs ∧ (c.shared.mounts m).openFiles = 0 := by
        generalize hr : (0 : Int) = r₀ at ho
        cases ho with
        | busy => simp [EBUSY] at hr
        | refused _ hres => omega
        | unlisted => simp [EINVAL] at hr
        | removed hfree _ hm _ => exact ⟨hm,by simpa using hfree⟩
      have hzero : totalPins c.pool ((vfs W).locals c) m = 0 := by
        have hcount := congrArg UInt16.toNat
          ((hinv.good.pins.count m).symm.trans hremoved.2)
        simpa [Nat.mod_eq_of_lt (hbound m)] using hcount
      refine ⟨(hxs.mounted_iff m).mpr hremoved.1,?_,?_⟩
      · change ¬s₁.Mounted m
        rw [hlist.mounted_iff]
        exact fun hm => (List.Nodup.mem_erase_iff hxs.repr.nodup).mp hm |>.1 rfl
      · have hpool : c.pool.pins m = 0 := by
          have := pins_le_totalPins c.pool ((vfs W).locals c) i m
          omega
        obtain ⟨hfds,hdirs⟩ := pool_pins_eq_zero hpool
        refine ⟨hfds,hdirs,?_⟩
        intro j
        have := pins_le_totalPins c.pool ((vfs W).locals c) j m
        omega

/-- While the first task is about to call the driver's `open`. -/
theorem no_operation_outlives_mount_opening : ∃ c : VConfig demo,
    (∃ op held f req next,c.task (demoTask 0) = .busy op held (.step (.fileCall f req) next)) ∧
    LifetimeGood c := by
  have hrun : ((vfs demo).drive Unforced
      (demoMount ++ callFor 0 (.open_ (some CStr.root) 0 0) 5) (initial (demoState none))).any
      (VConfig.callsFile · (demoTask 0)) = true := by decide
  obtain ⟨c,hc,hat⟩ := System.drive_any hrun
  exact ⟨c,VConfig.callsFile_iff.mp hat,no_operation_outlives_mount (demoState_fresh none) hc⟩

/-- The DIR object of a `vfs_closedir` that starts. -/
def VLabel.closes : VLabel W → Option W.Dir
  | .start _ (.closedir dirp) => dirp
  | _ => none

/-- A `vfs_closedir` of a DIR object that a `vfs_opendir` has set up and no other call is using.
It need not be open: a `vfs_opendir` that the driver refuses leaves its `mp`. -/
def ClosesSetUp (c : VConfig W) (l : VLabel W) : Prop :=
  ∃ d ∈ VLabel.closes l,(c.shared.dirs d).mp.isSome ∧
    ∀ j,((vfs W).locals c j).dir.map (·.1) ≠ some d

instance (c : VConfig W) (l : VLabel W) : Decidable (ClosesSetUp c l) := by
  unfold ClosesSetUp
  infer_instance

/-- Unforced steps, but after every `vfs_opendir` that set the DIR up one `vfs_closedir`, whether
the driver opened it or not. -/
def ClosedOnce (c : VConfig W) (l : VLabel W) : Prop :=
  (Proper c l ∨ ClosesSetUp c l) ∧ (∀ m,totalPins c.pool ((vfs W).locals c) m < 65536) ∧
    VLabel.forces l = false

instance (c : VConfig W) (l : VLabel W) : Decidable (ClosedOnce c l) :=
  inferInstanceAs (Decidable (_ ∧ _ ∧ _))

/-- Directories of a driver that opens none. -/
def refusesAll : DirOps demo where
  opendir := some fun _ dirp _ => ⟨-ENOENT,⟨0,[]⟩,dirp.priv,()⟩
  readdir := none
  closedir := none

/-- The label of the step in which an unforced `vfs_umount` removes the mount. -/
def VLabel.removes (m : W.Mnt) : VLabel W → Bool
  | .act _ (.umount n false) r => decide (n = m ∧ r = 0)
  | _ => false

theorem removes_iff {l : VLabel W} {m : W.Mnt} :
    VLabel.removes m l = true ↔ ∃ i,l = .act i (.umount m false) 0 := by
  constructor
  · intro h
    unfold VLabel.removes at h
    split at h
    next i n r =>
      obtain ⟨rfl,rfl⟩ := of_decide_eq_true h
      exact ⟨i,rfl⟩
    next => cases h
  · rintro ⟨i,rfl⟩
    simp [VLabel.removes]

/-- The mount, a `vfs_opendir` that is refused, the `vfs_closedir` of its DIR, a `vfs_open`, and a
`vfs_umount` up to its last locked region. -/
def refusedThenOpen : List (Move demo.Task (Op demo)) :=
  demoMount ++ callFor firstTask (.opendir (some demoDir) (some CStr.root)) 7 ++
    callFor firstTask (.closedir (some demoDir)) 4 ++
    callFor firstTask (.open_ (some CStr.root) 0 0) 7 ++
    callFor firstTask (.umount (some demoMnt) false) 1

/-- The `vfs_closedir` takes `open_files` below zero and the `vfs_open` back to zero: the unmount
without force removes the mount under an open descriptor. -/
theorem umount_under_descriptor : ∃ (c : VConfig demo) (i : demo.Task) (c' : VConfig demo),
    (vfs demo).Reachable ClosedOnce (initial (demoState (some refusesAll))) c ∧
    (vfs demo).Step c (.act i (.umount demoMnt false) 0) c' ∧
    c.shared.Mounted demoMnt ∧ ¬c'.shared.Mounted demoMnt ∧
    (∃ f,(c.shared.files f).tcb.isSome ∧ (c.shared.files f).mp = some demoMnt ∧
      (c.pool.fds f).map (·.mp) = some demoMnt) ∧ ¬LifetimeGood c := by
  have hrun : ((vfs demo).drive ClosedOnce refusedThenOpen
      (initial (demoState (some refusesAll)))).any (fun c =>
        ((vfs demo).move c (.go (demoTask 0))).any fun v => decide (
          VLabel.removes demoMnt v.1 = true ∧ c.shared.Mounted demoMnt ∧
          ¬v.2.shared.Mounted demoMnt ∧
          (∃ f,(c.shared.files f).tcb.isSome ∧ (c.shared.files f).mp = some demoMnt ∧
            (c.pool.fds f).map (·.mp) = some demoMnt) ∧
          ∀ m,totalPins c.pool ((vfs demo).locals c) m < 65536)) = true := by decide
  obtain ⟨c,l,c',hc,hstep,hP⟩ := System.drive_move_any hrun
  obtain ⟨hl,hin,hout,hopen,hbound⟩ := of_decide_eq_true hP
  obtain ⟨i,rfl⟩ := removes_iff.mp hl
  refine ⟨c,i,c',hc,hstep,hin,hout,hopen,?_⟩
  intro hgood
  obtain ⟨f,_,_,hfd⟩ := hopen
  obtain ⟨hd,hhd,hm⟩ := Option.map_eq_some_iff.mp hfd
  exact (hgood.removal i demoMnt c' hstep hbound).2.2.fds f hd hhd hm

end UcVfs
