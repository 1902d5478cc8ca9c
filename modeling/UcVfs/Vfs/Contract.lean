import UcVfs.Vfs.Ledgers

/-!
# What a call may do

The discipline that every operation of `vfs.c` follows, for mounts whose file systems are
`F`, and the invariant that each action taken under it keeps.
-/

namespace UcVfs

open Framework

variable {W : World}

/-- Every file system brings file operations. -/
def HasFileOps (F : W.Mnt → Option (FileSystem W)) : Prop :=
  ∀ m fs,F m = some fs → fs.fOp.isSome

/-- An action that a call with holdings `h` may take: nothing is called through a null
pointer, callbacks and decrements act on what the call holds. -/
def mayTake (F : W.Mnt → Option (FileSystem W)) (h : Hold W) : Action W → Prop
  | .fault => ¬HasFileOps F
  | .umount m _ => (F m).isSome
  | .initFd _ m _ => h.fd = none ∧ 0 < h.pins m
  | .fsCall m req => ((F m).bind (·.fsCallback req)).isSome ∧ (req ≠ .format → 0 < h.pins m)
  | .unpin m => 0 < h.pins m
  | .fileCall f req => ∃ hd,h.fd = some (f,hd) ∧ (hd.fOp.bind (·.callback req)).isSome ∧
      0 < h.pins hd.mp
  | .setPos f _ | .clearTcb f => ∃ hd,h.fd = some (f,hd)
  | .initDir d m _ => 0 < h.pins m ∧ ∃ o,h.dir = some (d,o)
  | .dirCall d req => ∃ hd,h.dir = some (d,some hd) ∧ (hd.dOp.callback req).isSome ∧
      0 < h.pins hd.mp
  | .clearDir d => ∃ o,h.dir = some (d,o)
  | _ => True

/-- What the answer to an action tells a call with holdings `h`. -/
def learns (F : W.Mnt → Option (FileSystem W)) (h : Hold W) : (x : Action W) → x.Resp → Prop
  | .findMount _,r => match r with
    | .error e => e < 0
    | .ok (m,_) => (F m).isSome
  | .formatCheck mountp,r => r < 0 ∨ r = 0 ∧ ∃ m,mountp = some m ∧ (F m).isSome
  | .umountCheck mountp,r => r = -EBUSY → ∃ m,mountp = some m ∧ (F m).isSome
  | .initFd _ _ _,r => match r with
    | .error e => e < 0
    | .ok _ => True
  | .fs m,r => r = F m ∧ (0 < h.pins m → r.isSome)
  | .file f,r => (∀ hd,h.fd = some (f,hd) → r.Matches hd) ∧
      ((∀ hd,h.fd ≠ some (f,hd)) → r.tcb = none)
  | .dir d,r => ∀ hd,h.dir = some (d,some hd) → r.Matches hd
  | _,_ => True

def contract (F : W.Mnt → Option (FileSystem W)) :
    Discipline (Action.Resp (W := W)) (Hold W) where
  pre := mayTake F
  post := learns F
  next := Hold.next

/-- The invariant between any two steps. -/
structure Good (F : W.Mnt → Option (FileSystem W)) (K : Pool W) (L : W.Task → Hold W)
    (s : State W) : Prop where
  listed : ∃ xs,s.Listed xs
  pins : PinsGood F K L s.mounts
  fds : FdsGood K L s.files
  dirs : DirsGood K L s.dirs
  live : ∀ f hd,K.fds f = some hd → hd.fOp.isSome

section Act

variable {F : W.Mnt → Option (FileSystem W)} {K : Pool W} {L : W.Task → Hold W} {i : W.Task}
  {h : Hold W} {s s' : State W}

/-- A step that moves no pin and no handle. -/
theorem Good.frame (hG : Good F K L s) (hpins : h.pins = (L i).pins) (hfd : h.fd = (L i).fd)
    (hdir : h.dir = (L i).dir) (hlisted : ∃ xs,s'.Listed xs)
    (hframe : s.Frame s') : Good F K (Function.update L i h) s' where
  listed := hlisted
  pins := hG.pins.transfer (by simp [hpins]) hframe.fs hframe.openFiles
  fds := hG.fds.frame rfl hfd (by simp [hframe.files]) (by simp [hframe.files])
  dirs := hG.dirs.frame rfl hdir (by simp [hframe.dirs])
  live := hG.live

theorem Good.same (hG : Good F K L s) (hpins : h.pins = (L i).pins) (hfd : h.fd = (L i).fd)
    (hdir : h.dir = (L i).dir) : Good F K (Function.update L i h) s :=
  hG.frame hpins hfd hdir hG.listed (.refl s)

/-- A callback of a file system changes no table. -/
theorem Good.returned (hG : Good F K L s) (hpins : h.pins = (L i).pins)
    (hfd : h.fd = (L i).fd) (hdir : h.dir = (L i).dir) (drv : W.Drv) (call : Call W) :
    Good F K (Function.update L i h) (s.returned drv call) := by
  obtain ⟨xs,hxs⟩ := hG.listed
  exact hG.frame hpins hfd hdir ⟨xs,hxs.repr,hxs.accepted⟩ ⟨rfl,rfl,fun _ => rfl,fun _ => rfl⟩

/-- A step on one file object that keeps what its handle says. -/
theorem Good.modifyFile {f : Fd} {g : File W → File W} (hG : Good F K L s)
    (hpins : h.pins = (L i).pins) (hfd : h.fd = (L i).fd) (hdir : h.dir = (L i).dir)
    (hmounts : s'.mounts = s.mounts) (hlist : s'.mountsList = s.mountsList)
    (hfiles : s'.files = (s.modifyFile f g).files) (hdirs : s'.dirs = s.dirs)
    (htcb : ∀ e,(g e).tcb = e.tcb) (hkeep : ∀ e hd,e.Matches hd → (g e).Matches hd) :
    Good F K (Function.update L i h) s' where
  listed := by
    obtain ⟨xs,hxs⟩ := hG.listed
    exact ⟨xs,hlist ▸ hxs.repr,hmounts ▸ hxs.accepted⟩
  pins := hG.pins.transfer (by simp [hpins]) (by simp [hmounts]) (by simp [hmounts])
  fds := by
    rw [hfiles]
    apply hG.fds.frame rfl hfd
    · intro f'
      by_cases hf : f' = f
      · subst f'; simp [State.modifyFile,htcb]
      · simp [State.modifyFile,hf]
    · intro f' hd hm
      by_cases hf : f' = f
      · subst f'; simpa [State.modifyFile] using hkeep _ hd hm
      · simpa [State.modifyFile,hf] using hm
  dirs := hG.dirs.frame rfl hdir (by simp [hdirs])
  live := hG.live

/-- The holder of a DIR object writes to it. -/
theorem Good.setDir {d : W.Dir} {obj : DirObj W} {o o' : Option (DirHandle W)}
    (hG : Good F K L s) (hi : (L i).dir = some (d,o)) (hpins : h.pins = (L i).pins)
    (hfd : h.fd = (L i).fd) (hdir : h.dir = some (d,o'))
    (hnew : ∀ hd,o' = some hd → obj.Matches hd) (hmounts : s'.mounts = s.mounts)
    (hlist : s'.mountsList = s.mountsList) (hfiles : s'.files = s.files)
    (hdirs : s'.dirs = (s.setDir d obj).dirs) : Good F K (Function.update L i h) s' where
  listed := by
    obtain ⟨xs,hxs⟩ := hG.listed
    exact ⟨xs,hlist ▸ hxs.repr,hmounts ▸ hxs.accepted⟩
  pins := hG.pins.transfer (by simp [hpins]) (by simp [hmounts]) (by simp [hmounts])
  fds := hG.fds.frame rfl hfd (by simp [hfiles]) (by simp [hfiles])
  dirs := by
    apply hG.dirs.set hi hdir
    · intro hd ho
      rw [hdirs]
      simpa [State.setDir] using hnew hd ho
    · intro e he
      rw [hdirs]
      simp [State.setDir,he]
  live := hG.live

theorem State.Listed.modifyMount {xs : List W.Mnt} {m : W.Mnt} {f : Mount W → Mount W}
    (hxs : s.Listed xs) (hf : ∀ o,(f o).accepted = o.accepted ∧
      (f o).mountPointLen = o.mountPointLen) : (s.modifyMount m f).Listed xs := by
  refine ⟨hxs.repr,?_⟩
  intro n hn
  by_cases hnm : n = m
  · subst n
    simpa [State.modifyMount,hf] using hxs.accepted m hn
  · simpa [State.modifyMount,hnm] using hxs.accepted n hn

theorem State.Listed.congr {xs : List W.Mnt} (h : s.Listed xs)
    (hlist : s'.mountsList = s.mountsList) (hmounts : s'.mounts = s.mounts) : s'.Listed xs := by
  refine ⟨hlist ▸ h.repr,?_⟩
  rw [hmounts]
  exact h.accepted

theorem State.Listed.pin {xs : List W.Mnt} (h : s.Listed xs) (m : W.Mnt) :
    (s.pin m).Listed xs := h.modifyMount fun _ => ⟨rfl,rfl⟩

theorem State.Listed.unpin {xs : List W.Mnt} (h : s.Listed xs) (m : W.Mnt) :
    (s.unpin m).Listed xs := h.modifyMount fun _ => ⟨rfl,rfl⟩

theorem State.pin_openFiles (s : State W) (m n : W.Mnt) :
    ((s.pin m).mounts n).openFiles = (s.mounts n).openFiles + if n = m then 1 else 0 := by
  by_cases hn : n = m
  · subst n
    simp [pin,modifyMount]
  · simp [pin,modifyMount,hn]

theorem State.unpin_openFiles (s : State W) (m n : W.Mnt) :
    ((s.unpin m).mounts n).openFiles = (s.mounts n).openFiles - if n = m then 1 else 0 := by
  by_cases hn : n = m
  · subst n
    simp [unpin,modifyMount]
  · simp [unpin,modifyMount,hn]

theorem State.unpin_pin_mounts {m : W.Mnt}
    (h : s'.mounts = (s.pin m).mounts) : (s'.unpin m).mounts = s.mounts := by
  simp [State.unpin,State.modifyMount,h,State.pin]

/-- One more pin, counted by the call. -/
theorem Good.pin {m : W.Mnt} (hG : Good F K L s) (hF : (F m).isSome)
    (hpins : h.pins = (L i).pins + one m) (hfd : h.fd = (L i).fd) (hdir : h.dir = (L i).dir) :
    Good F K (Function.update L i h) (s.pin m) where
  listed := by
    obtain ⟨xs,hxs⟩ := hG.listed
    exact ⟨xs,hxs.modifyMount fun o => ⟨rfl,rfl⟩⟩
  pins := hG.pins.pin hF hpins
  fds := hG.fds.frame rfl hfd (fun _ => rfl) (fun _ _ hm => hm)
  dirs := hG.dirs.frame rfl hdir (fun _ _ hm => hm)
  live := hG.live

theorem Good.unpin {m : W.Mnt} (hG : Good F K L s) (hpos : 0 < (L i).pins m)
    (hpins : h.pins = (L i).pins - one m) (hfd : h.fd = (L i).fd) (hdir : h.dir = (L i).dir) :
    Good F K (Function.update L i h) (s.unpin m) where
  listed := by
    obtain ⟨xs,hxs⟩ := hG.listed
    exact ⟨xs,hxs.modifyMount fun o => ⟨rfl,rfl⟩⟩
  pins := hG.pins.unpin hpos hpins
  fds := hG.fds.frame rfl hfd (fun _ => rfl) (fun _ _ hm => hm)
  dirs := hG.dirs.frame rfl hdir (fun _ _ hm => hm)
  live := hG.live

/-- An action that a call may take can be taken, and keeps the invariant. A call looks only
at table entries that it holds or that nobody holds. -/
theorem Good.act {x : Action W} (hG : Good F K L s) (hi : L i = h) (hpre : mayTake F h x)
    (hx : x ≠ .fault) (hfile : ∀ f,x = .file f →
      (∃ hd,h.fd = some (f,hd)) ∨ fdHolders K L f = 0) :
    ∃ r s',x.exec i s = some (r,s') ∧ learns F h x r ∧
      Good F K (Function.update L i (h.next x r)) s' := by
  subst h
  obtain ⟨xs,hxs⟩ := hG.listed
  cases x with
  | fault => exact absurd rfl hx
  | findMount name =>
    obtain ⟨acc,hacc,hmem⟩ := findMountRound_foldlM hxs.mountPoint name ⟨none,0⟩
    have he := findMountBody_eq hxs hacc
    cases hm : acc.mountp with
    | none =>
      rw [hm] at he
      exact ⟨_,_,he,by simp [learns,ENOENT],hG.same rfl rfl rfl⟩
    | some m =>
      rw [hm] at he
      have hmem : m ∈ xs := by simpa using hmem m hm
      obtain ⟨p,hp,_⟩ := hxs.accepted m hmem
      have hF : (F m).isSome := hG.pins.fs m ▸ (Mount.accepted_eq_some.mp hp).1
      exact ⟨_,_,he,hF,hG.pin hF rfl rfl rfl⟩
  | mount mountp =>
    obtain ⟨r,s',he,ho⟩ := vfsMountBody_outcome hxs mountp
    obtain ⟨hl,hf⟩ := ho.listed hxs
    exact ⟨r,s',he,trivial,hG.frame rfl rfl rfl ⟨_,hl⟩ hf⟩
  | formatCheck mountp =>
    obtain ⟨r,s',he,ho⟩ := vfsFormatCheck_outcome hxs mountp
    obtain ⟨hl,hf⟩ := ho.listed hxs
    refine ⟨r,s',he,?_,?_⟩
    · cases ho with
      | invalid => exact Or.inl (by simp [EINVAL])
      | busy => exact Or.inl (by simp [EBUSY])
      | @passed m p _ hp =>
        exact Or.inr ⟨rfl,m,rfl,hG.pins.fs m ▸ (Mount.accepted_eq_some.mp hp).1⟩
    · apply hG.frame _ _ _ ⟨_,hl⟩ hf
      all_goals
        cases mountp with
        | none => rfl
        | some m => simp only [Hold.next]; split <;> rfl
  | umountCheck mountp =>
    obtain ⟨r,s',he,ho⟩ := vfsUmountCheck_outcome hxs mountp
    obtain ⟨hl,hf⟩ := ho.listed hxs
    refine ⟨r,s',he,?_,?_⟩
    · intro hr
      cases ho with
      | invalid => exact absurd hr (by simp [EINVAL,EBUSY])
      | @busy m p _ hp => exact ⟨m,rfl,hG.pins.fs m ▸ (Mount.accepted_eq_some.mp hp).1⟩
      | passed => exact absurd hr (by simp [EBUSY])
    · apply hG.frame _ _ _ ⟨_,hl⟩ hf
      all_goals
        cases mountp with
        | none => rfl
        | some m => simp only [Hold.next]; split <;> rfl
  | umount m force =>
    obtain ⟨fs,hfs⟩ := Option.isSome_iff_exists.mp hpre
    obtain ⟨r,s',he,ho⟩ := vfsUmountBody_outcome hxs ((hG.pins.fs m).trans hfs) force
    obtain ⟨hl,hf⟩ := ho.listed hxs
    exact ⟨r,s',he,trivial,hG.frame rfl rfl rfl ⟨_,hl⟩ hf⟩
  | initFd fOp m flags =>
    rcases vfsOpenBody_outcome i fOp m flags s with ⟨_,he⟩ | ⟨fd,hfree,he⟩
    · exact ⟨_,_,he,by simp [learns,ENFILE],hG.same rfl rfl rfl⟩
    · refine ⟨_,_,he,trivial,⟨⟨xs,hxs.repr,hxs.accepted⟩,?_,?_,?_,hG.live⟩⟩
      · exact hG.pins.transfer (fun _ => rfl) (fun _ => rfl) (fun _ => rfl)
      · have hnew : (File.opened i fOp m flags (s.files fd)).Matches ⟨m,fOp,flags⟩ :=
          ⟨rfl,rfl,rfl,rfl⟩
        apply hG.fds.init hfree hpre.1 rfl (by simpa [State.modifyFile] using hnew)
        intro g hg
        simp [State.modifyFile,hg]
      · exact hG.dirs.frame rfl rfl (fun _ _ hm => hm)
  | fs m =>
    refine ⟨_,_,rfl,⟨hG.pins.fs m,?_⟩,hG.same rfl rfl rfl⟩
    intro hpos
    rw [hG.pins.fs m]
    have := weight_le_ledger (K.pins m) (fun h => h.pins m) L i
    exact hG.pins.pinned m (by simp only [totalPins]; omega)
  | fsCall m req =>
    obtain ⟨callback,hcb⟩ := Option.isSome_iff_exists.mp hpre.1
    have hexec : (Action.fsCall m req).exec i s = some (fsCallback m req callback s) := by
      simp [Action.exec,hG.pins.fs,hcb]
    refine ⟨_,_,hexec,trivial,?_⟩
    apply hG.returned
    all_goals cases req <;> rfl
  | unpin m => exact ⟨_,_,rfl,trivial,hG.unpin hpre rfl rfl rfl⟩
  | file f =>
    refine ⟨_,_,rfl,⟨fun hd hf => hG.fds.task i f hd hf,?_⟩,hG.same rfl rfl rfl⟩
    intro hno
    rcases hfile f rfl with ⟨hd,hf⟩ | hzero
    · exact absurd hf (hno hd)
    · have hh := hG.fds.holders f
      by_contra hne
      simp [Option.isSome_iff_ne_none.mpr hne,hzero] at hh
  | fileCall f req =>
    obtain ⟨hd,hf,hcb,_⟩ := hpre
    obtain ⟨callback,hcb⟩ := Option.isSome_iff_exists.mp hcb
    have hm := hG.fds.task i f hd hf
    have hexec : (Action.fileCall f req).exec i s = some (fileCallback f req callback s) := by
      simp [Action.exec,hm.fOp,hcb]
    let ans := callback (s.files f).view s.drv
    exact ⟨_,_,hexec,trivial,hG.modifyFile (g := fun e => { e with pos := ans.pos, priv := ans.priv })
      rfl rfl rfl rfl rfl rfl rfl (fun _ => rfl) (fun e hd hm => ⟨hm.tcb,hm.mp,hm.fOp,hm.flags⟩)⟩
  | setPos f pos =>
    exact ⟨_,_,rfl,trivial,hG.modifyFile (g := fun e => { e with pos := pos })
      rfl rfl rfl rfl rfl rfl rfl (fun _ => rfl) (fun e hd hm => ⟨hm.tcb,hm.mp,hm.fOp,hm.flags⟩)⟩
  | clearTcb f =>
    obtain ⟨hd,hf⟩ := hpre
    refine ⟨_,_,rfl,trivial,⟨⟨xs,hxs.repr,hxs.accepted⟩,?_,?_,?_,hG.live⟩⟩
    · exact hG.pins.transfer (fun _ => rfl) (fun _ => rfl) (fun _ => rfl)
    · apply hG.fds.clear hf rfl
      · simp [State.modifyFile]
      · intro g hg
        simp [State.modifyFile,hg]
    · exact hG.dirs.frame rfl rfl (fun _ _ hm => hm)
  | dir d =>
    exact ⟨_,_,rfl,fun hd hd' => hG.dirs.task i d hd hd',hG.same rfl rfl rfl⟩
  | initDir d m dOp =>
    obtain ⟨_,o,ho⟩ := hpre
    have hnew : ∀ hd,some ⟨m,dOp⟩ = some hd →
        (⟨some dOp,some m,W.zeroed⟩ : DirObj W).Matches hd := by
      rintro hd ⟨⟩
      exact ⟨rfl,rfl⟩
    exact ⟨_,_,rfl,trivial,hG.setDir ho rfl rfl rfl hnew rfl rfl rfl rfl⟩
  | dirCall d req =>
    obtain ⟨hd,hdir,hcb,_⟩ := hpre
    obtain ⟨callback,hcb⟩ := Option.isSome_iff_exists.mp hcb
    have hm := hG.dirs.task i d hd hdir
    have hexec : (Action.dirCall d req).exec i s = some (dirCallback d req callback s) := by
      simp [Action.exec,hm.dOp,hcb]
    refine ⟨_,_,hexec,trivial,?_⟩
    have hkeep : ∀ o : Option (DirHandle W),o = some hd ∨ o = none → ∀ hd',o = some hd' →
        ({ s.dirs d with priv := (callback (s.dirs d).view s.drv).priv } : DirObj W).Matches
          hd' := by
      rintro o (rfl | rfl) hd' ⟨⟩
      exact ⟨hm.mp,hm.dOp⟩
    cases req with
    | opendir dirname =>
      by_cases hres : (callback (s.dirs d).view s.drv).res < 0
      · simp only [Hold.next,hres,if_true]
        exact hG.setDir hdir rfl rfl rfl (hkeep none (Or.inr rfl)) rfl rfl rfl rfl
      · simp only [Hold.next,hres,if_false]
        exact hG.setDir hdir rfl rfl hdir (hkeep _ (Or.inl rfl)) rfl rfl rfl rfl
    | readdir entry => exact hG.setDir hdir rfl rfl hdir (hkeep _ (Or.inl rfl)) rfl rfl rfl rfl
    | closedir => exact hG.setDir hdir rfl rfl hdir (hkeep _ (Or.inl rfl)) rfl rfl rfl rfl
  | clearDir d =>
    obtain ⟨o,ho⟩ := hpre
    have hnew : ∀ hd : DirHandle W,none = some hd →
        (⟨none,none,W.zeroed⟩ : DirObj W).Matches hd := by
      rintro hd ⟨⟩
    exact ⟨_,_,rfl,trivial,hG.setDir ho rfl rfl rfl hnew rfl rfl rfl rfl⟩

end Act

end UcVfs
