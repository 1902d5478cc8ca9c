import UcVfs.Vfs.Calls

/-!
# Every operation keeps to the contract

One lemma for each helper of `vfs.c`, in the form of a rule for the code after it, and from
them one for each operation: what a call holds when it returns.
-/

namespace UcVfs

open Framework

variable {W : World} {F : W.Mnt → Option (FileSystem W)} {ρ : Type} {h : Hold W}

section Helpers

theorem obeys_crash {Q : Hold W → ρ → Prop} (hF : ¬HasFileOps F) :
    (crash : VProg W ρ).Obeys (contract F) Q h := ⟨hF,fun r => nomatch r⟩

theorem obeys_mountFs {Q : Hold W → FileSystem W → Prop} {m : W.Mnt} (hpos : 0 < h.pins m)
    (hQ : ∀ fs,F m = some fs → Q h fs) : (mountFs m).Obeys (contract F) Q h := by
  apply Prog.Obeys.bind
  refine ⟨trivial,?_⟩
  rintro r ⟨rfl,hr⟩
  obtain ⟨fs,hfs⟩ := Option.isSome_iff_exists.mp (hr hpos)
  rw [hfs]
  exact hQ fs hfs

theorem obeys_mountFs_of {Q : Hold W → FileSystem W → Prop} {m : W.Mnt} {fs : FileSystem W}
    (hfs : F m = some fs) (hQ : Q h fs) : (mountFs m).Obeys (contract F) Q h := by
  apply Prog.Obeys.bind
  refine ⟨trivial,?_⟩
  rintro _ ⟨rfl,_⟩
  rw [hfs]
  exact hQ

theorem obeys_dir {Q : Hold W → DirObj W → Prop} {d : W.Dir} {hd : DirHandle W}
    (hdir : h.dir = some (d,some hd)) (hQ : ∀ obj : DirObj W,obj.Matches hd → Q h obj) :
    (act (.dir d)).Obeys (contract F) Q h := ⟨trivial,fun obj hobj => hQ obj (hobj hd hdir)⟩

theorem obeys_findMount {Q : Hold W → Except Int (W.Mnt × CStr) → Prop} {name : CStr}
    (herr : ∀ e,e < 0 → Q h (.error e))
    (hok : ∀ m p,Q { h with pins := h.pins + one m, found := some m } (.ok (m,p))) :
    (findMount name).Obeys (contract F) Q h := by
  apply Prog.Obeys.bind
  refine ⟨trivial,?_⟩
  rintro (e | ⟨m,longestMatch⟩) hr
  · exact herr e hr
  · have hpos : 0 < (h.pins + one m) m := by simp
    apply Prog.Obeys.bind
    apply obeys_mountFs hpos
    intro fs _
    split
    · exact hok m _
    · exact hok m _

theorem obeys_unpin {Q : Hold W → Unit → Prop} {m : W.Mnt} (hpos : 0 < h.pins m)
    (hQ : Q { h with pins := h.pins - one m } ()) :
    (act (.unpin m)).Obeys (contract F) Q h := ⟨hpos,fun _ _ => hQ⟩

variable {f : Fd} {hd : FdHandle W}

theorem obeys_file {Q : Hold W → File W → Prop} (hfd : h.fd = some (f,hd))
    (hQ : ∀ e : File W,e.Matches hd → Q h e) :
    (act (.file f)).Obeys (contract F) Q h := ⟨trivial,fun e he => hQ e (he.1 hd hfd)⟩

theorem obeys_fileOps {Q : Hold W → FileOps W → Prop} (hfd : h.fd = some (f,hd))
    (hsome : HasFileOps F → hd.fOp.isSome) (hQ : ∀ ops,hd.fOp = some ops → Q h ops) :
    (fileOps f).Obeys (contract F) Q h := by
  apply Prog.Obeys.bind
  apply obeys_file hfd
  intro e he
  rw [he.fOp]
  cases hops : hd.fOp with
  | none =>
    apply obeys_crash
    intro hF
    simpa [hops] using hsome hF
  | some ops => exact hQ ops hops

theorem obeys_fileCall {Q : Hold W → FileRet → Prop} {req : FileReq} {ops : FileOps W}
    (hfd : h.fd = some (f,hd)) (hops : hd.fOp = some ops) (hreq : (ops.callback req).isSome)
    (hpos : 0 < h.pins hd.mp) (hQ : ∀ ans,Q { h with called := true } ans) :
    (act (.fileCall f req)).Obeys (contract F) Q h :=
  ⟨⟨hd,hfd,by simpa [hops] using hreq,hpos⟩,fun ans _ => hQ ans⟩

theorem obeys_fdIsValid {Q : Hold W → Except Int Fd → Prop} {fd : Int}
    (hfd : h.fd = some (f,hd)) (hidx : fdIndex fd = some f)
    (hbad : hd.fOp = none → Q h (.error (-EBADF))) (hok : hd.fOp.isSome → Q h (.ok f)) :
    (fdIsValid fd).Obeys (contract F) Q h := by
  simp only [fdIsValid,hidx]
  apply Prog.Obeys.bind
  apply obeys_file hfd
  intro e he
  have htcb : e.tcb.isNone = false := by simpa using he.tcb
  simp only [htcb,Bool.false_eq_true,if_false]
  apply Prog.Obeys.bind
  apply obeys_file hfd
  intro e he
  rw [he.fOp]
  cases hops : hd.fOp with
  | none => exact hbad hops
  | some ops => exact hok (by simp [hops])

/-- A call that was not given the descriptor finds it closed. -/
theorem obeys_fdIsValid_free {Q : Hold W → Except Int Fd → Prop} {fd : Int} (hfd : h.fd = none)
    (hbad : Q h (.error (-EBADF))) : (fdIsValid fd).Obeys (contract F) Q h := by
  unfold fdIsValid
  cases fdIndex fd with
  | none => exact hbad
  | some f =>
    apply Prog.Obeys.bind
    refine ⟨trivial,?_⟩
    intro e he
    have htcb : e.tcb = none := he.2 (by simp [hfd])
    change Prog.Obeys _ _ _ (if e.tcb.isNone then _ else _)
    rw [htcb]
    exact hbad

theorem obeys_freeFd {Q : Hold W → Unit → Prop} (hfd : h.fd = some (f,hd))
    (hpos : 0 < h.pins hd.mp) (hQ : Q { h with pins := h.pins - one hd.mp, fd := none } ()) :
    (freeFd f).Obeys (contract F) Q h := by
  apply Prog.Obeys.bind
  apply obeys_file hfd
  intro e he
  rw [he.mp]
  apply Prog.Obeys.bind
  apply obeys_unpin hpos
  exact ⟨⟨hd,hfd⟩,fun _ _ => hQ⟩

end Helpers

section Descriptors

variable {f : Fd} {hd : FdHandle W} {fd : Int}

/-- The call may have called its file callback and is otherwise where it was. -/
def Keeps (h h' : Hold W) : Prop := h' = h ∨ h' = { h with called := true }

/-- The call is where it was, with the error of a closed descriptor unless `bad` came first. -/
def Refuses (bad : Prop) (h h' : Hold W) (r : Int) : Prop := h' = h ∧ (¬bad → r = -EBADF)

theorem obeys_vfsFstat_free (hfd : h.fd = none) (buf : Option Stat) :
    (vfsFstat fd buf).Obeys (contract F) (fun h' r => Refuses (buf = none) h h' r.1) h := by
  cases buf with
  | none => exact ⟨rfl,fun hno => absurd rfl hno⟩
  | some buf =>
    apply Prog.Obeys.bind
    apply obeys_fdIsValid_free hfd
    exact ⟨rfl,fun _ => rfl⟩

theorem obeys_vfsFstat (hfd : h.fd = some (f,hd)) (hidx : fdIndex fd = some f)
    (hpos : 0 < h.pins hd.mp) (buf : Option Stat) :
    (vfsFstat fd buf).Obeys (contract F) (fun h' _ => Keeps h h') h := by
  cases buf with
  | none => exact Or.inl rfl
  | some buf =>
    apply Prog.Obeys.bind
    apply obeys_fdIsValid hfd hidx (fun _ => Or.inl rfl)
    intro hsome
    apply Prog.Obeys.bind
    apply obeys_fileOps hfd (fun _ => hsome)
    intro ops hops
    cases hcb : ops.fstat with
    | none => exact Or.inl rfl
    | some callback =>
      apply Prog.Obeys.bind
      apply obeys_fileCall hfd hops (by simp [FileOps.callback,hcb]) hpos
      intro ans
      exact Or.inr rfl

theorem obeys_vfsLseek_free (hfd : h.fd = none) (off whence : Int) :
    (vfsLseek fd off whence).Obeys (contract F) (Refuses False h) h := by
  apply Prog.Obeys.bind
  apply obeys_fdIsValid_free hfd
  exact ⟨rfl,fun _ => rfl⟩

theorem obeys_vfsLseek (hfd : h.fd = some (f,hd)) (hidx : fdIndex fd = some f)
    (hpos : 0 < h.pins hd.mp) (off whence : Int) :
    (vfsLseek fd off whence).Obeys (contract F) (fun h' _ => Keeps h h') h := by
  apply Prog.Obeys.bind
  apply obeys_fdIsValid hfd hidx (fun _ => Or.inl rfl)
  intro hsome
  apply Prog.Obeys.bind
  apply obeys_fileOps hfd (fun _ => hsome)
  intro ops hops
  cases hcb : ops.lseek with
  | none =>
    apply Prog.Obeys.bind
    apply obeys_file hfd
    intro e _
    split
    · extract_lets off
      split
      · exact Or.inl rfl
      · exact ⟨⟨hd,hfd⟩,fun _ _ => Or.inl rfl⟩
    · exact Or.inl rfl
  | some callback =>
    apply Prog.Obeys.bind
    apply obeys_fileCall hfd hops (by simp [FileOps.callback,hcb]) hpos
    intro ans
    exact Or.inr rfl

theorem obeys_vfsRead_free (hfd : h.fd = none) (dest : Bool) (count : Nat) :
    (vfsRead fd dest count).Obeys (contract F) (fun h' r => Refuses (dest = false) h h' r.1)
      h := by
  cases dest with
  | false => exact ⟨rfl,fun hno => absurd rfl hno⟩
  | true =>
    apply Prog.Obeys.bind
    apply Prog.Obeys.bind
    apply obeys_fdIsValid_free hfd
    exact ⟨rfl,fun _ => rfl⟩

theorem obeys_vfsRead (hfd : h.fd = some (f,hd)) (hidx : fdIndex fd = some f)
    (hpos : 0 < h.pins hd.mp) (dest : Bool) (count : Nat) :
    (vfsRead fd dest count).Obeys (contract F) (fun h' _ => Keeps h h') h := by
  cases dest with
  | false => exact Or.inl rfl
  | true =>
    apply Prog.Obeys.bind
    apply Prog.Obeys.bind
    apply obeys_fdIsValid hfd hidx (fun _ => Or.inl rfl)
    intro hsome
    apply Prog.Obeys.bind
    apply obeys_file hfd
    intro e _
    split
    · exact Or.inl rfl
    · apply Prog.Obeys.bind
      apply obeys_fileOps hfd (fun _ => hsome)
      intro ops hops
      cases hcb : ops.read with
      | none => exact Or.inl rfl
      | some callback =>
        apply Prog.Obeys.bind
        apply obeys_fileCall hfd hops (by simp [FileOps.callback,hcb]) hpos
        intro ans
        exact Or.inr rfl

theorem obeys_vfsWrite_free (hfd : h.fd = none) (src : Option (List UInt8)) :
    (vfsWrite fd src).Obeys (contract F) (Refuses (src = none) h) h := by
  cases src with
  | none => exact ⟨rfl,fun hno => absurd rfl hno⟩
  | some src =>
    apply Prog.Obeys.bind
    apply obeys_fdIsValid_free hfd
    exact ⟨rfl,fun _ => rfl⟩

theorem obeys_vfsWrite (hfd : h.fd = some (f,hd)) (hidx : fdIndex fd = some f)
    (hpos : 0 < h.pins hd.mp) (src : Option (List UInt8)) :
    (vfsWrite fd src).Obeys (contract F) (fun h' _ => Keeps h h') h := by
  cases src with
  | none => exact Or.inl rfl
  | some src =>
    apply Prog.Obeys.bind
    apply obeys_fdIsValid hfd hidx (fun _ => Or.inl rfl)
    intro hsome
    apply Prog.Obeys.bind
    apply obeys_file hfd
    intro e _
    split
    · exact Or.inl rfl
    · apply Prog.Obeys.bind
      apply obeys_fileOps hfd (fun _ => hsome)
      intro ops hops
      cases hcb : ops.write with
      | none => exact Or.inl rfl
      | some callback =>
        apply Prog.Obeys.bind
        apply obeys_fileCall hfd hops (by simp [FileOps.callback,hcb]) hpos
        intro ans
        exact Or.inr rfl

theorem obeys_vfsFsync_free (hfd : h.fd = none) :
    (vfsFsync fd).Obeys (contract F) (Refuses False h) h := by
  apply Prog.Obeys.bind
  apply obeys_fdIsValid_free hfd
  exact ⟨rfl,fun _ => rfl⟩

theorem obeys_vfsFsync (hfd : h.fd = some (f,hd)) (hidx : fdIndex fd = some f)
    (hpos : 0 < h.pins hd.mp) :
    (vfsFsync fd).Obeys (contract F) (fun h' _ => Keeps h h') h := by
  apply Prog.Obeys.bind
  apply obeys_fdIsValid hfd hidx (fun _ => Or.inl rfl)
  intro hsome
  apply Prog.Obeys.bind
  apply obeys_file hfd
  intro e _
  split
  · exact Or.inl rfl
  · apply Prog.Obeys.bind
    apply obeys_fileOps hfd (fun _ => hsome)
    intro ops hops
    cases hcb : ops.fsync with
    | none => exact Or.inl rfl
    | some callback =>
      apply Prog.Obeys.bind
      apply obeys_fileCall hfd hops (by simp [FileOps.callback,hcb]) hpos
      intro ans
      exact Or.inr rfl

theorem obeys_vfsClose_free (hfd : h.fd = none) :
    (vfsClose fd).Obeys (contract F) (Refuses False h) h := by
  apply Prog.Obeys.bind
  apply obeys_fdIsValid_free hfd
  exact ⟨rfl,fun _ => rfl⟩

/-- The descriptor and its pin are given back, whatever the driver answers. -/
theorem obeys_vfsClose (hfd : h.fd = some (f,hd)) (hidx : fdIndex fd = some f)
    (hpos : 0 < h.pins hd.mp) (hsome : hd.fOp.isSome) :
    (vfsClose fd).Obeys (contract F) (fun h' _ => ∃ b,
      h' = { h with pins := h.pins - one hd.mp, fd := none, called := b }) h := by
  apply Prog.Obeys.bind
  apply obeys_fdIsValid hfd hidx
  · intro hnone
    simp [hnone] at hsome
  intro _
  apply Prog.Obeys.bind
  apply obeys_fileOps hfd (fun _ => hsome)
  intro ops hops
  cases hcb : ops.close with
  | none =>
    apply Prog.Obeys.bind
    exact obeys_freeFd hfd hpos ⟨h.called,rfl⟩
  | some callback =>
    apply Prog.Obeys.bind
    apply obeys_fileCall hfd hops (by simp [FileOps.callback,hcb]) hpos
    intro ans
    apply Prog.Obeys.bind
    exact obeys_freeFd hfd hpos ⟨true,rfl⟩

end Descriptors

section Paths

/-- The call holds what it held before. -/
structure Unmoved (h h' : Hold W) : Prop where
  pins : h'.pins = h.pins
  fd : h'.fd = h.fd
  dir : h'.dir = h.dir

theorem Unmoved.refl (h : Hold W) : Unmoved h h := ⟨rfl,rfl,rfl⟩

theorem pins_add_one_sub_one (p : W.Mnt → ℕ) (m : W.Mnt) : p + one m - one m = p := by
  funext n
  simp

/-- How `vfs_open` ends: without a descriptor, or with one that it initialised itself. -/
inductive OpenEnd (F : W.Mnt → Option (FileSystem W)) (flags : Nat) (h h' : Hold W) (r : Int) :
    Prop
  | failed (hr : r < 0) (hsame : Unmoved h h')
  | opened {f : Fd} {hd : FdHandle W} {fs : FileSystem W} (hr : r = (f : Nat))
      (hfd : h'.fd = some (f,hd)) (hpins : h'.pins = h.pins + one hd.mp)
      (hdir : h'.dir = h.dir) (hfound : h'.found = some hd.mp) (hflags : hd.flags = flags)
      (hfs : F hd.mp = some fs) (hops : hd.fOp = fs.fOp) (hsome : hd.fOp.isSome)

theorem obeys_vfsOpen (hfd : h.fd = none) (name : Option CStr) (flags mode : Nat) :
    (vfsOpen name flags mode).Obeys (contract F) (OpenEnd F flags h) h := by
  cases name with
  | none => exact .failed (by simp [EINVAL]) (.refl h)
  | some name =>
    apply Prog.Obeys.bind
    apply obeys_findMount (fun e he => .failed he (.refl h))
    intro m relPath
    have hpos : 0 < (h.pins + one m) m := by simp
    apply Prog.Obeys.bind
    apply obeys_mountFs hpos
    intro fs hfs
    apply Prog.Obeys.bind
    refine ⟨⟨hfd,hpos⟩,?_⟩
    rintro (e | f) hr
    · apply Prog.Obeys.bind
      apply obeys_unpin hpos
      exact .failed hr ⟨pins_add_one_sub_one h.pins m,rfl,rfl⟩
    · have hopen : ∀ b,OpenEnd F flags h
          { h with pins := h.pins + one m, found := some m, fd := some (f,⟨m,fs.fOp,flags⟩),
                   called := b } (f : Nat) ↔ fs.fOp.isSome := by
        intro b
        constructor
        · rintro (⟨hneg,_⟩ | ⟨hr,hfd,_,_,_,_,_,_,hsome⟩)
          · omega
          · obtain ⟨_,rfl⟩ := Prod.ext_iff.mp (Option.some.inj hfd)
            exact hsome
        · intro hsome
          exact .opened rfl rfl rfl rfl rfl rfl hfs rfl hsome
      apply Prog.Obeys.bind
      apply obeys_fileOps rfl (fun hF => hF m fs hfs)
      intro ops hops
      have hsome : fs.fOp.isSome := by
        have : fs.fOp = some ops := hops
        simp [this]
      cases hcb : ops.open_ with
      | none => exact (hopen h.called).mpr hsome
      | some callback =>
        apply Prog.Obeys.bind
        apply obeys_fileCall rfl hops (by simp [FileOps.callback,hcb]) hpos
        intro ans
        split
        next hneg =>
          apply Prog.Obeys.bind
          apply obeys_freeFd rfl hpos
          exact .failed hneg ⟨pins_add_one_sub_one h.pins m,hfd.symm,rfl⟩
        next => exact (hopen true).mpr hsome

theorem obeys_vfsRename (fromPath toPath : Option CStr) :
    (vfsRename (W := W) fromPath toPath).Obeys (contract F) (fun h' _ => Unmoved h h') h := by
  cases fromPath with
  | none => exact .refl h
  | some fromPath =>
    cases toPath with
    | none => exact .refl h
    | some toPath =>
      apply Prog.Obeys.bind
      apply obeys_findMount (fun _ _ => .refl h)
      intro m relFrom
      have hpos : 0 < (h.pins + one m) m := by simp
      apply Prog.Obeys.bind
      apply obeys_mountFs hpos
      intro fs hfs
      cases hcb : fs.fsOp.bind (·.rename) with
      | none =>
        apply Prog.Obeys.bind
        apply obeys_unpin hpos
        exact ⟨pins_add_one_sub_one h.pins m,rfl,rfl⟩
      | some callback =>
        apply Prog.Obeys.bind
        apply obeys_findMount
        · intro e _
          apply Prog.Obeys.bind
          apply obeys_unpin hpos
          exact ⟨pins_add_one_sub_one h.pins m,rfl,rfl⟩
        · intro m' relTo
          have hpos' : 0 < (h.pins + one m + one m') m := by
            have : (h.pins + one m + one m') m = (h.pins + one m) m + one m' m := rfl
            omega
          have hfirst : h.pins + one m + one m' - one m = h.pins + one m' := by
            funext n
            simp only [Pi.add_apply,Pi.sub_apply]
            omega
          have hpos₂ : 0 < (h.pins + one m + one m' - one m) m' := by
            rw [hfirst]
            simp
          have hback : h.pins + one m + one m' - one m - one m' = h.pins := by
            rw [hfirst,pins_add_one_sub_one]
          change Prog.Obeys _ _ _ (if m' ≠ m then _ else _)
          split
          next hne =>
            apply Prog.Obeys.bind
            apply obeys_unpin hpos'
            apply Prog.Obeys.bind
            apply obeys_unpin hpos₂
            exact ⟨hback,rfl,rfl⟩
          next heq =>
            have hfsCb : (fs.fsCallback (.rename relFrom relTo)).isSome := by
              obtain ⟨ops,hops,hren⟩ := Option.bind_eq_some_iff.mp hcb
              simp [FileSystem.fsCallback,FsOps.callback,hops,hren]
            apply Prog.Obeys.bind
            refine ⟨⟨by simpa [hfs] using hfsCb,fun _ => hpos'⟩,?_⟩
            intro ans _
            apply Prog.Obeys.bind
            apply obeys_unpin hpos'
            apply Prog.Obeys.bind
            apply obeys_unpin hpos₂
            exact ⟨hback,rfl,rfl⟩

theorem obeys_vfsPathOp (missing : Int) {req : CStr → FsReq}
    (hreq : ∀ p,req p ≠ .format) (name : CStr) :
    (vfsPathOp (W := W) missing req name).Obeys (contract F) (fun h' _ => Unmoved h h') h := by
  apply Prog.Obeys.bind
  apply obeys_findMount (fun _ _ => .refl h)
  intro m relPath
  have hpos : 0 < (h.pins + one m) m := by simp
  apply Prog.Obeys.bind
  apply obeys_mountFs hpos
  intro fs hfs
  cases hcb : fs.fsCallback (req relPath) with
  | none =>
    apply Prog.Obeys.bind
    apply obeys_unpin hpos
    exact ⟨pins_add_one_sub_one h.pins m,rfl,rfl⟩
  | some callback =>
    apply Prog.Obeys.bind
    refine ⟨⟨by simp [hfs,hcb],fun _ => hpos⟩,?_⟩
    intro ans _
    have hkeep : ∀ h₁ : Hold W,h₁.next (.fsCall m (req relPath)) ans =
        if req relPath = .format then { h₁ with checked := none } else h₁ := by
      intro h₁
      cases hr : req relPath <;> simp [Hold.next]
    change Prog.Obeys _ _ (Hold.next _ (.fsCall m (req relPath)) ans) _
    rw [hkeep,if_neg (hreq relPath)]
    apply Prog.Obeys.bind
    apply obeys_unpin hpos
    exact ⟨pins_add_one_sub_one h.pins m,rfl,rfl⟩

end Paths

section Dirs

variable {d : W.Dir} {o : Option (DirHandle W)} {hd : DirHandle W}

/-- How `vfs_opendir` ends on a DIR object that it holds. Only `unsupported` keeps a pin that
goes with nothing. -/
inductive OpendirEnd (F : W.Mnt → Option (FileSystem W)) (d : W.Dir)
    (o : Option (DirHandle W)) (h h' : Hold W) (r : Int) : Prop
  | untouched (hr : r < 0) (hpins : h'.pins = h.pins) (hdir : h'.dir = some (d,o))
      (hfd : h'.fd = h.fd) (hre : h'.reopened = h.reopened)
  | unsupported {m : W.Mnt} {fs : FileSystem W} (hr : r < 0) (hfound : h'.found = some m)
      (hfs : F m = some fs) (hops : fs.dOp = none) (hpins : h'.pins = h.pins + one m)
      (hdir : h'.dir = some (d,o)) (hfd : h'.fd = h.fd) (hre : h'.reopened = h.reopened)
  | failed (hr : r < 0) (hpins : h'.pins = h.pins) (hdir : h'.dir = some (d,none))
      (hfd : h'.fd = h.fd) (hre : h'.reopened = h.reopened)
  | opened {hd : DirHandle W} (hr : r = 0) (hfound : h'.found = some hd.mp)
      (hpins : h'.pins = h.pins + one hd.mp) (hdir : h'.dir = some (d,some hd))
      (hfd : h'.fd = h.fd) (hre : h'.reopened = h.reopened)

theorem obeys_vfsOpendir (hdir : h.dir = some (d,o)) (dirname : Option CStr) :
    (vfsOpendir (some d) dirname).Obeys (contract F) (OpendirEnd F d o h) h := by
  cases dirname with
  | none => exact .untouched (by simp [EINVAL]) rfl hdir rfl rfl
  | some dirname =>
    apply Prog.Obeys.bind
    apply obeys_findMount (fun e he => .untouched he rfl hdir rfl rfl)
    intro m relPath
    have hpos : 0 < (h.pins + one m) m := by simp
    apply Prog.Obeys.bind
    apply obeys_mountFs hpos
    intro fs hfs
    cases hops : fs.dOp with
    | none => exact .unsupported (by simp [EINVAL]) rfl hfs hops rfl hdir rfl rfl
    | some dOp =>
      apply Prog.Obeys.bind
      refine ⟨⟨hpos,o,hdir⟩,?_⟩
      intro _ _
      cases hcb : dOp.opendir with
      | none => exact .opened rfl rfl rfl rfl rfl rfl
      | some callback =>
        apply Prog.Obeys.bind
        refine ⟨⟨⟨m,dOp⟩,rfl,by simp [DirOps.callback,hcb],hpos⟩,?_⟩
        intro ans _
        change Prog.Obeys _ _ (if ans.res < 0 then _ else _) (if ans.res < 0 then _ else _)
        split
        next hneg =>
          apply Prog.Obeys.bind
          apply obeys_unpin hpos
          exact .failed hneg (pins_add_one_sub_one h.pins m) rfl rfl rfl
        next => exact .opened rfl rfl rfl rfl rfl rfl

theorem obeys_vfsReaddir (hdir : h.dir = some (d,some hd)) (hpos : 0 < h.pins hd.mp)
    (entry : Option Dirent) :
    (vfsReaddir (some d) entry).Obeys (contract F) (fun h' _ => h' = h) h := by
  cases entry with
  | none => rfl
  | some entry =>
    apply Prog.Obeys.bind
    apply obeys_dir hdir
    intro obj hobj
    have hops := hobj.dOp
    cases hcb : hd.dOp.readdir with
    | none =>
      simp only [hops,Option.bind_some,hcb]
      rfl
    | some callback =>
      simp only [hops,Option.bind_some,hcb]
      apply Prog.Obeys.bind
      exact ⟨⟨hd,hdir,by simp [DirOps.callback,hcb],hpos⟩,fun _ _ => rfl⟩

/-- The DIR object is closed and its pin given back, whatever the driver answers. -/
theorem obeys_vfsClosedir (hdir : h.dir = some (d,some hd)) (hpos : 0 < h.pins hd.mp) :
    (vfsClosedir (some d)).Obeys (contract F) (fun h' _ =>
      h' = { h with pins := h.pins - one hd.mp, dir := some (d,none) }) h := by
  apply Prog.Obeys.bind
  apply obeys_dir hdir
  intro obj hobj
  have hops := hobj.dOp
  have hmp := hobj.mp
  cases hcb : hd.dOp.closedir with
  | none =>
    simp only [hmp,hops,Option.bind_some,hcb]
    apply Prog.Obeys.bind
    refine ⟨⟨some hd,hdir⟩,?_⟩
    intro _ _
    apply Prog.Obeys.bind
    exact obeys_unpin hpos rfl
  | some callback =>
    simp only [hmp,hops,Option.bind_some,hcb]
    apply Prog.Obeys.bind
    refine ⟨⟨hd,hdir,by simp [DirOps.callback,hcb],hpos⟩,?_⟩
    intro ans _
    apply Prog.Obeys.bind
    refine ⟨⟨some hd,hdir⟩,?_⟩
    intro _ _
    apply Prog.Obeys.bind
    exact obeys_unpin hpos rfl

end Dirs

section Mounts

theorem obeys_vfsFormat (mountp : Option W.Mnt) :
    (vfsFormat mountp).Obeys (contract F) (fun h' _ => Unmoved h h') h := by
  have hcheck : ∀ r,Unmoved h (h.next (.formatCheck mountp) r) := by
    intro r
    cases mountp with
    | none => exact .refl h
    | some m =>
      simp only [Hold.next]
      split
      · exact ⟨rfl,rfl,rfl⟩
      · exact .refl h
  apply Prog.Obeys.bind
  refine ⟨trivial,?_⟩
  intro r hr
  simp only [Prog.obeys_ret]
  split
  · exact hcheck r
  · rcases hr with hneg | ⟨_,m,rfl,hF⟩
    · contradiction
    · obtain ⟨fs,hfs⟩ := Option.isSome_iff_exists.mp hF
      apply Prog.Obeys.bind
      apply obeys_mountFs_of hfs
      cases hcb : fs.fsCallback .format with
      | none => exact hcheck r
      | some callback =>
        have hk := hcheck r
        apply Prog.Obeys.bind
        exact ⟨⟨by simp [hfs,hcb],fun hne => absurd rfl hne⟩,
          fun _ _ => ⟨hk.pins,hk.fd,hk.dir⟩⟩

theorem obeys_vfsMount (mountp : Option W.Mnt) :
    (vfsMount mountp).Obeys (contract F) (fun h' _ => Unmoved h h') h :=
  ⟨trivial,fun _ _ => .refl h⟩

theorem obeys_vfsUmount (mountp : Option W.Mnt) (force : Bool) :
    (vfsUmount mountp force).Obeys (contract F) (fun h' _ => Unmoved h h') h := by
  have hcheck : ∀ r,Unmoved h (h.next (.umountCheck mountp) r) := by
    intro r
    cases mountp with
    | none => exact .refl h
    | some m =>
      simp only [Hold.next]
      split
      · exact ⟨rfl,rfl,rfl⟩
      · exact .refl h
  apply Prog.Obeys.bind
  refine ⟨trivial,?_⟩
  intro r hr
  simp only [Prog.obeys_ret]
  split
  next hbusy =>
    obtain ⟨m,rfl,hF⟩ := hr hbusy
    have hk := hcheck r
    exact ⟨hF,fun _ _ => ⟨hk.pins,hk.fd,hk.dir⟩⟩
  next => exact hcheck r

end Mounts

/-- A DIR object is read or closed only while it is open. -/
def DirOpen (K : Pool W) : Op W → Prop
  | .readdir (some d) _ | .closedir (some d) => (K.dirs d).isSome
  | _ => True

/-- The pins that a call holds when it returns go with its handles. A `vfs_opendir` keeps one
more when it overwrote an open DIR or found a mount without directory operations. -/
def Balanced (F : W.Mnt → Option (FileSystem W)) (op : Op W) (h : Hold W) : Prop :=
  match op with
  | .opendir _ _ => (∀ m,h.handlePins m ≤ h.pins m) ∧ (h.reopened = false →
      (∀ m fs,h.found = some m → F m = some fs → fs.dOp.isSome) → h.handlePins = h.pins)
  | _ => h.handlePins = h.pins

/-- A call keeps the descriptor it was given; one that was given none calls no driver and, if
nothing is wrong with its other arguments, answers `-EBADF`. -/
def Used (bad : Prop) (h : Hold W) (r : Int) : Prop :=
  h.fd = h.given ∧ (h.given = none → (¬bad → r = -EBADF) ∧ h.called = false)

/-- What a call with result `r` has done to its descriptor or DIR object. -/
def Outcome (F : W.Mnt → Option (FileSystem W)) (op : Op W) (h : Hold W) (r : Int) : Prop :=
  match op with
  | .open_ _ flags _ =>
    (r < 0 ∧ h.fd = none ∧ h.pins = fun _ => 0) ∨ ∃ (f : Fd) (hd : FdHandle W),
      r = (f : Nat) ∧ h.fd = some (f,hd) ∧ h.found = some hd.mp ∧ hd.flags = flags ∧
      ∃ fs,F hd.mp = some fs ∧ hd.fOp = fs.fOp
  | .close _ => h.fd = none ∧ (h.given = none → r = -EBADF ∧ h.called = false)
  | .fstat _ buf => Used (buf = none) h r
  | .read _ dest _ => Used (dest = false) h r
  | .write _ src => Used (src = none) h r
  | .lseek _ _ _ | .fsync _ => Used False h r
  | .opendir (some d) _ => r < 0 ∨ r = 0 ∧ ∃ hd : DirHandle W,
      h.dir = some (d,some hd) ∧ h.found = some hd.mp
  | _ => True

/-- The state of a call that returns `r`. -/
structure Ends (F : W.Mnt → Option (FileSystem W)) (op : Op W) (h : Hold W) (r : Int) :
    Prop where
  balanced : Balanced F op h
  live : ∀ f hd,h.fd = some (f,hd) → hd.fOp.isSome
  outcome : Outcome F op h r

theorem Ends.handlePins_le {op : Op W} {r : Int} (he : Ends F op h r) (m : W.Mnt) :
    h.handlePins m ≤ h.pins m := by
  have hbal := he.balanced
  cases op with
  | opendir => exact hbal.1 m
  | _ => exact le_of_eq (congrFun hbal m)

section Ends

variable {K K' : Pool W} {op : Op W}

private theorem Begins.plain (hb : Begins K op K' h) (hfd : op.fdArg = none)
    (hdir : op.dirArg = none) : h = Hold.idle := by
  cases hb with
  | fd harg => simp [hfd] at harg
  | dir _ harg => simp [hdir] at harg
  | nothing => rfl

private theorem Begins.ofDir {d : W.Dir} (hb : Begins K op K' h) (hfd : op.fdArg = none)
    (hdir : op.dirArg = some d) : h = Hold.ofDir d (K.dirs d) := by
  cases hb with
  | fd harg => simp [hfd] at harg
  | @dir e _ harg =>
    obtain rfl : e = d := by simpa [hdir] using harg.symm
    rfl
  | nothing harg => simp [hfd,hdir] at harg

private theorem Begins.ofFd {fd : Int} (hb : Begins K op K' h) (hfd : op.fdArg = fdIndex fd)
    (hdir : op.dirArg = none) (hlive : ∀ f hd,K.fds f = some hd → hd.fOp.isSome) :
    h = Hold.idle ∨
      ∃ f hd,fdIndex fd = some f ∧ hd.fOp.isSome ∧ h = Hold.ofFd f hd := by
  cases hb with
  | @fd f hd harg hpool => exact Or.inr ⟨f,hd,hfd ▸ harg,hlive f hd hpool,rfl⟩
  | dir _ harg => simp [hdir] at harg
  | nothing => exact Or.inl rfl

theorem handlePins_idle : (Hold.idle : Hold W).handlePins = Hold.idle.pins := by
  funext m
  rfl

theorem handlePins_ofFd {f : Fd} {hd : FdHandle W} (b : Bool) :
    Hold.handlePins { Hold.ofFd f hd with called := b } = one hd.mp := by
  funext m
  simp [Hold.handlePins,Hold.ofFd,FdHandle.pins,DirHandle.pins]

private theorem Used.ends {bad : Prop} {r : Int} (hU : Used bad h r)
    (hbal : h.handlePins = h.pins) (hlive : ∀ f hd,h.fd = some (f,hd) → hd.fOp.isSome)
    (hB : Balanced F op h ↔ h.handlePins = h.pins) (hO : Outcome F op h r ↔ Used bad h r) :
    Ends F op h r := ⟨hB.mpr hbal,hlive,hO.mpr hU⟩

private theorem ends_free {bad : Prop} {h' : Hold W} {r : Int}
    (hr : Refuses bad Hold.idle h' r) (hB : Balanced F op h' ↔ h'.handlePins = h'.pins)
    (hO : Outcome F op h' r ↔ Used bad h' r) : Ends F op h' r := by
  obtain ⟨rfl,hr⟩ := hr
  have hU : Used bad (Hold.idle : Hold W) r := ⟨rfl,fun _ => ⟨hr,rfl⟩⟩
  exact hU.ends handlePins_idle (by simp [Hold.idle]) hB hO

private theorem ends_keeps {bad : Prop} {f : Fd} {hd : FdHandle W} {h' : Hold W} {r : Int}
    (hk : Keeps (Hold.ofFd f hd) h') (hsome : hd.fOp.isSome)
    (hB : Balanced F op h' ↔ h'.handlePins = h'.pins)
    (hO : Outcome F op h' r ↔ Used bad h' r) : Ends F op h' r := by
  obtain ⟨b,rfl⟩ : ∃ b,h' = { Hold.ofFd f hd with called := b } := by
    rcases hk with rfl | rfl
    · exact ⟨_,rfl⟩
    · exact ⟨true,rfl⟩
  have hU : Used bad { Hold.ofFd f hd with called := b } r :=
    ⟨rfl,fun hno => by simp [Hold.ofFd] at hno⟩
  refine hU.ends (handlePins_ofFd b) ?_ hB hO
  intro g hd' hg
  obtain ⟨_,rfl⟩ : f = g ∧ hd = hd' := by simpa [Hold.ofFd] using hg
  exact hsome

private theorem ends_unmoved {h' : Hold W} {r : Int} (hU : Unmoved Hold.idle h')
    (hB : Balanced F op h' ↔ h'.handlePins = h'.pins) (hO : Outcome F op h' r) :
    Ends F op h' r := by
  refine ⟨hB.mpr ?_,?_,hO⟩
  · rw [hU.pins,← handlePins_idle]
    funext m
    simp only [Hold.handlePins,hU.fd,hU.dir]
  · intro f hd hf
    simp [hU.fd,Hold.idle] at hf

private theorem ends_open {flags mode : Nat} {name : Option CStr} {h' : Hold W} {r : Int}
    (ho : OpenEnd F flags Hold.idle h' r) : Ends F (.open_ name flags mode) h' r := by
  cases ho with
  | failed hr hsame =>
    exact ends_unmoved hsame Iff.rfl (Or.inl ⟨hr,hsame.fd,hsame.pins⟩)
  | @opened f hd fs hr hfd hpins hdir hfound hflags hfs hops hsome =>
    refine ⟨?_,?_,Or.inr ⟨f,hd,hr,hfd,hfound,hflags,fs,hfs,hops⟩⟩
    · funext m
      simp [Hold.handlePins,hpins,hfd,hdir,Hold.idle,FdHandle.pins,DirHandle.pins]
    · intro g hd' hg
      obtain ⟨_,rfl⟩ : f = g ∧ hd = hd' := by simpa [hfd] using hg
      exact hsome

private theorem ends_opendir {d : W.Dir} {o : Option (DirHandle W)} {dirname : Option CStr}
    {h' : Hold W} {r : Int} (ho : OpendirEnd F d o (Hold.ofDir d o) h' r) :
    Ends F (.opendir (some d) dirname) h' r := by
  have hfd₀ : (Hold.ofDir d o).fd = none := rfl
  have hpins₀ : (Hold.ofDir d o).pins = DirHandle.pins o := rfl
  have hre₀ : (Hold.ofDir d o).reopened = o.isSome := rfl
  have hlive : h'.fd = none → ∀ f hd,h'.fd = some (f,hd) → hd.fOp.isSome := by
    intro hnone f hd hf
    simp [hnone] at hf
  cases ho with
  | untouched hr hpins hdir hfd _ =>
    rw [hfd₀] at hfd
    have hbal : h'.handlePins = h'.pins := by
      funext m
      simp [Hold.handlePins,hfd,hdir,hpins,hpins₀,FdHandle.pins]
    exact ⟨⟨fun m => le_of_eq (congrFun hbal m),fun _ _ => hbal⟩,hlive hfd,
      Or.inl hr⟩
  | @unsupported m fs hr hfound hfs hops hpins hdir hfd _ =>
    rw [hfd₀] at hfd
    have hbal : h'.handlePins = DirHandle.pins o := by
      funext n
      simp [Hold.handlePins,hfd,hdir,FdHandle.pins]
    refine ⟨⟨?_,?_⟩,hlive hfd,Or.inl hr⟩
    · intro n
      rw [hbal,hpins,hpins₀]
      exact Nat.le_add_right _ _
    · intro _ hall
      simpa [hops] using hall m fs hfound hfs
  | failed hr hpins hdir hfd hre =>
    rw [hfd₀] at hfd
    have hbal : h'.handlePins = fun _ => 0 := by
      funext n
      simp [Hold.handlePins,hfd,hdir,FdHandle.pins,DirHandle.pins]
    refine ⟨⟨?_,?_⟩,hlive hfd,Or.inl hr⟩
    · intro n
      simp [hbal]
    · intro hno _
      cases o with
      | none => rw [hbal,hpins,hpins₀]; rfl
      | some hd => simp [hre,hre₀] at hno
  | @opened hd hr hfound hpins hdir hfd hre =>
    rw [hfd₀] at hfd
    have hbal : h'.handlePins = one hd.mp := by
      funext n
      simp [Hold.handlePins,hfd,hdir,FdHandle.pins,DirHandle.pins]
    refine ⟨⟨?_,?_⟩,hlive hfd,Or.inr ⟨hr,hd,hdir,hfound⟩⟩
    · intro n
      rw [hbal,hpins]
      exact Nat.le_add_left _ _
    · intro hno _
      cases o with
      | none =>
        rw [hbal,hpins,hpins₀]
        funext n
        simp [DirHandle.pins]
      | some hd => simp [hre,hre₀] at hno

/-- Every operation keeps to the contract from what it starts with. -/
theorem obeys_prog (hb : Begins K op K' h) (hlive : ∀ f hd,K.fds f = some hd → hd.fOp.isSome)
    (hopen : DirOpen K op) : op.prog.Obeys (contract F) (Ends F op) h := by
  have hpos : ∀ (f : Fd) (hd : FdHandle W),0 < (Hold.ofFd f hd).pins hd.mp := by
    intro f hd
    simp [Hold.ofFd]
  cases op with
  | open_ name flags mode =>
    obtain rfl := hb.plain rfl rfl
    exact (obeys_vfsOpen rfl name flags mode).mono fun _ _ ho => ends_open ho
  | close fd =>
    rcases hb.ofFd rfl rfl hlive with rfl | ⟨f,hd,hidx,hsome,rfl⟩
    · apply (obeys_vfsClose_free rfl).mono
      rintro h' r ⟨rfl,hr⟩
      exact ⟨handlePins_idle,by simp [Hold.idle],rfl,fun _ => ⟨hr not_false,rfl⟩⟩
    · apply (obeys_vfsClose rfl hidx (hpos f hd) hsome).mono
      rintro h' r ⟨b,rfl⟩
      refine ⟨?_,by simp,rfl,fun hno => by simp [Hold.ofFd] at hno⟩
      funext m
      simp [Hold.handlePins,Hold.ofFd,FdHandle.pins,DirHandle.pins]
  | fstat fd buf =>
    rcases hb.ofFd rfl rfl hlive with rfl | ⟨f,hd,hidx,hsome,rfl⟩
    · exact ((obeys_vfsFstat_free rfl buf).mono
        fun _ _ hr => ends_free hr Iff.rfl Iff.rfl).map
    · exact ((obeys_vfsFstat rfl hidx (hpos f hd) buf).mono
        fun _ _ hk => ends_keeps hk hsome Iff.rfl Iff.rfl).map
  | lseek fd off whence =>
    rcases hb.ofFd rfl rfl hlive with rfl | ⟨f,hd,hidx,hsome,rfl⟩
    · exact (obeys_vfsLseek_free rfl off whence).mono
        fun _ _ hr => ends_free hr Iff.rfl Iff.rfl
    · exact (obeys_vfsLseek rfl hidx (hpos f hd) off whence).mono
        fun _ _ hk => ends_keeps hk hsome Iff.rfl Iff.rfl
  | read fd dest count =>
    rcases hb.ofFd rfl rfl hlive with rfl | ⟨f,hd,hidx,hsome,rfl⟩
    · exact ((obeys_vfsRead_free rfl dest count).mono
        fun _ _ hr => ends_free hr Iff.rfl Iff.rfl).map
    · exact ((obeys_vfsRead rfl hidx (hpos f hd) dest count).mono
        fun _ _ hk => ends_keeps hk hsome Iff.rfl Iff.rfl).map
  | write fd src =>
    rcases hb.ofFd rfl rfl hlive with rfl | ⟨f,hd,hidx,hsome,rfl⟩
    · exact (obeys_vfsWrite_free rfl src).mono fun _ _ hr => ends_free hr Iff.rfl Iff.rfl
    · exact (obeys_vfsWrite rfl hidx (hpos f hd) src).mono
        fun _ _ hk => ends_keeps hk hsome Iff.rfl Iff.rfl
  | fsync fd =>
    rcases hb.ofFd rfl rfl hlive with rfl | ⟨f,hd,hidx,hsome,rfl⟩
    · exact (obeys_vfsFsync_free rfl).mono fun _ _ hr => ends_free hr Iff.rfl Iff.rfl
    · exact (obeys_vfsFsync rfl hidx (hpos f hd)).mono
        fun _ _ hk => ends_keeps hk hsome Iff.rfl Iff.rfl
  | opendir dirp dirname =>
    cases dirp with
    | none =>
      obtain rfl := hb.plain rfl rfl
      exact ⟨⟨fun m => le_of_eq (congrFun handlePins_idle m),fun _ _ => handlePins_idle⟩,
        by simp [Hold.idle],trivial⟩
    | some d =>
      obtain rfl := hb.ofDir rfl rfl
      exact (obeys_vfsOpendir rfl dirname).mono fun _ _ ho => ends_opendir ho
  | readdir dirp entry =>
    cases dirp with
    | none =>
      obtain rfl := hb.plain rfl rfl
      exact ⟨handlePins_idle,by simp [Hold.idle],trivial⟩
    | some d =>
      obtain rfl := hb.ofDir rfl rfl
      obtain ⟨hd,hd'⟩ := Option.isSome_iff_exists.mp hopen
      rw [hd']
      apply Prog.Obeys.map
      apply (obeys_vfsReaddir rfl (by simp [Hold.ofDir,DirHandle.pins]) entry).mono
      rintro h' r rfl
      refine ⟨?_,by simp [Hold.ofDir],trivial⟩
      funext m
      simp [Hold.handlePins,Hold.ofDir,FdHandle.pins]
  | closedir dirp =>
    cases dirp with
    | none =>
      obtain rfl := hb.plain rfl rfl
      exact ⟨handlePins_idle,by simp [Hold.idle],trivial⟩
    | some d =>
      obtain rfl := hb.ofDir rfl rfl
      obtain ⟨hd,hd'⟩ := Option.isSome_iff_exists.mp hopen
      rw [hd']
      apply (obeys_vfsClosedir rfl (by simp [Hold.ofDir,DirHandle.pins])).mono
      rintro h' r rfl
      refine ⟨?_,by simp [Hold.ofDir],trivial⟩
      funext m
      simp [Hold.handlePins,Hold.ofDir,FdHandle.pins,DirHandle.pins]
  | format mountp =>
    obtain rfl := hb.plain rfl rfl
    exact (obeys_vfsFormat mountp).mono fun _ _ hU => ends_unmoved hU Iff.rfl trivial
  | mount mountp =>
    obtain rfl := hb.plain rfl rfl
    exact (obeys_vfsMount mountp).mono fun _ _ hU => ends_unmoved hU Iff.rfl trivial
  | umount mountp force =>
    obtain rfl := hb.plain rfl rfl
    exact (obeys_vfsUmount mountp force).mono fun _ _ hU => ends_unmoved hU Iff.rfl trivial
  | rename fromPath toPath =>
    obtain rfl := hb.plain rfl rfl
    exact (obeys_vfsRename fromPath toPath).mono fun _ _ hU => ends_unmoved hU Iff.rfl trivial
  | unlink name =>
    obtain rfl := hb.plain rfl rfl
    cases name with
    | none => exact ends_unmoved (.refl _) Iff.rfl trivial
    | some name =>
      apply Prog.Obeys.map
      exact (obeys_vfsPathOp EROFS (by simp) name).mono
        fun _ _ hU => ends_unmoved hU Iff.rfl trivial
  | mkdir name mode =>
    obtain rfl := hb.plain rfl rfl
    cases name with
    | none => exact ends_unmoved (.refl _) Iff.rfl trivial
    | some name =>
      apply Prog.Obeys.map
      exact (obeys_vfsPathOp ENOTSUP (by simp) name).mono
        fun _ _ hU => ends_unmoved hU Iff.rfl trivial
  | rmdir name =>
    obtain rfl := hb.plain rfl rfl
    cases name with
    | none => exact ends_unmoved (.refl _) Iff.rfl trivial
    | some name =>
      apply Prog.Obeys.map
      exact (obeys_vfsPathOp ENOTSUP (by simp) name).mono
        fun _ _ hU => ends_unmoved hU Iff.rfl trivial
  | stat path buf =>
    obtain rfl := hb.plain rfl rfl
    apply Prog.Obeys.map
    cases path with
    | none => exact ends_unmoved (.refl _) Iff.rfl trivial
    | some path =>
      cases buf with
      | none => exact ends_unmoved (.refl _) Iff.rfl trivial
      | some buf =>
        apply Prog.Obeys.bind
        exact (obeys_vfsPathOp EPERM (by simp) path).mono
          fun _ _ hU => ends_unmoved hU Iff.rfl trivial

end Ends

end UcVfs
