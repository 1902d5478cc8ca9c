import UcVfs.Fatfs.PrivateVolume
import UcVfs.Filesystems.LockBalance
import UcVfs.Framework.Scratch

/-!
# The path buffers of FatFs mounts

Tasks call the operations on paths of `vfs.c`. The regions of `vfs.c` under its mutexes are steps,
and so are building a path in the buffer of a mount and each call of FatFs.
-/

namespace UcVfs

open Framework Prog

variable {W : World} {ff : FatFs W.Mnt} {lf : LittleFs W.Mnt}

/-- The state of all layers. The objects of the drivers stand beside the tables of `vfs.c`. -/
structure SysState (W : World) (ff : FatFs W.Mnt) (lf : LittleFs W.Mnt) where
  vfs : State W
  fat : FatState ff
  lfs : LfsState lf
  fatFiles : Fd → FatfsFileDesc ff.Fil
  fatDirs : W.Dir → ff.Dir
  lfsFiles : Fd → lf.File
  lfsDirs : W.Dir → lf.Dir

/-- The steps inside the locked regions of `vfs.c` are not taken one by one here. -/
def SysAct.exec (tcb : W.Task) :
    (x : SysAct W ff lf) → SysState W ff lf → Option (x.Resp × SysState W ff lf)
  | .fine (.vfs x),s => (x.exec tcb s.vfs).map fun ans => (ans.1,{ s with vfs := ans.2 })
  | .fine _,_ => none
  | .fat x,s => (x.exec s.fat).map fun ans => (ans.1,{ s with fat := ans.2 })
  | .lfs x,s => (x.exec s.lfs).map fun ans => (ans.1,{ s with lfs := ans.2 })
  | .fatFile fd,s => some (s.fatFiles fd,s)
  | .setFatFile fd file,s => some ((),{ s with fatFiles := Function.update s.fatFiles fd file })
  | .fatDir d,s => some (s.fatDirs d,s)
  | .setFatDir d dir,s => some ((),{ s with fatDirs := Function.update s.fatDirs d dir })
  | .lfsFile fd,s => some (s.lfsFiles fd,s)
  | .setLfsFile fd file,s => some ((),{ s with lfsFiles := Function.update s.lfsFiles fd file })
  | .lfsDir d,s => some (s.lfsDirs d,s)
  | .setLfsDir d dir,s => some ((),{ s with lfsDirs := Function.update s.lfsDirs d dir })

variable (ff lf) in
/-- A call with the code of the drivers in it. -/
def Op.driven (d : Drivers W) (op : Op W) : SysProg W ff lf Int :=
  op.prog.expand fun x => Sys.drive d (.vfs x)

/-- The mount whose buffer a call of FatFs is given. -/
def FatAct.uses : FatAct ff → Option W.Mnt
  | mount m | unmount m | open_ m _ _ | stat m | unlink m | rename m _ | mkdir m | opendir m _ =>
    some m
  | _ => none

def FatAct.builds : FatAct ff → Option (W.Mnt × CStr)
  | buildAbsPath m name => some (m,name)
  | _ => none

variable (W ff lf) in
def pathBuffers : Scratch (SysAct W ff lf) (SysState W ff lf) W.Mnt (List Char) where
  writes
    | .fat x => x.builds.map fun w => (w.1,absPathOf w.2)
    | _ => none
  uses
    | .fat x => x.uses
    | _ => none
  contents s m := (s.fat.descs m).absPath.chars

variable (ff lf) in
/-- Tasks that share the mounts. A call holds what it has built last for each mount. -/
def pathSystem (d : Drivers W) :
    System (@SysAct.Resp W ff lf) (SysState W ff lf) Unit W.Task (Op W) Int
      (W.Mnt → Option (List Char)) where
  prog := Op.driven ff lf d
  exec := SysAct.exec
  begin pool _ _ := (pool,fun _ => none)
  next := (pathBuffers W ff lf).discipline.next
  finish pool _ _ _ _ := pool
  idle := fun _ => none

/-- `abs_path_str_buff[FATFS_MAX_ABS_PATH_SIZE]`. -/
def SysState.Sized (s : SysState W ff lf) : Prop :=
  ∀ m,(s.fat.descs m).absPathStrBuff.length = FATFS_MAX_ABS_PATH_SIZE

namespace Op

/-- The calls that this is about. -/
def OnPath : Op W → Prop
  | open_ _ _ _ | unlink _ | rename _ _ | mkdir _ _ | rmdir _ | opendir _ _ | stat _ _ => True
  | _ => False

/-- The path argument, the first one of a rename. -/
def pathArg : Op W → Option CStr
  | open_ name _ _ | unlink name | rename name _ | mkdir name _ | rmdir name | opendir _ name
  | stat name _ => name
  | _ => none

/-- A name that a driver may be asked for: what is left of the argument below the mount point, or
the root when nothing is. -/
def Names (op : Op W) (name : CStr) : Prop :=
  ∃ arg,op.pathArg = some arg ∧ ∃ n,name = arg.drop n ∨ name = CStr.root ∧ (arg.drop n).chars = []

end Op

section Exec

theorem FatAct.exec_descs [DecidableEq W.Mnt] {x : FatAct ff} {s s' : FatState ff} {r : x.Resp}
    (h : x.exec s = some (r,s')) : s'.descs =
      match x.builds with
      | some (m,name) => Function.update s.descs m ((s.descs m).buildAbsPath name)
      | none => s.descs := by
  cases x with
  | unlockWork =>
    simp only [FatAct.exec] at h
    cases hwork : s.workMtx with
    | zero => simp [hwork] at h
    | succ depth =>
      simp only [hwork,Option.some.injEq,Prod.mk.injEq] at h
      rw [← h.2]
      rfl
  | _ =>
    simp only [FatAct.exec,Option.some.injEq,Prod.mk.injEq] at h
    rw [← h.2]
    rfl

theorem fat_exec_sized {x : FatAct ff} {s s' : FatState ff} {r : x.Resp}
    (hsized : ∀ m,(s.descs m).absPathStrBuff.length = FATFS_MAX_ABS_PATH_SIZE)
    (h : x.exec s = some (r,s')) (m : W.Mnt) :
    (s'.descs m).absPathStrBuff.length = FATFS_MAX_ABS_PATH_SIZE ∧
      (s'.descs m).absPath.chars =
        match x.builds with
        | some (n,name) => if m = n then absPathOf name else (s.descs m).absPath.chars
        | none => (s.descs m).absPath.chars := by
  rw [FatAct.exec_descs h]
  cases x.builds with
  | none => exact ⟨hsized m,rfl⟩
  | some w =>
    obtain ⟨n,name⟩ := w
    dsimp only
    by_cases hm : m = n
    · subst hm
      rw [Function.update_self,if_pos rfl]
      exact ⟨(FatfsDesc.buildAbsPath_length _ _).trans (hsized m),
        FatfsDesc.builtPath_chars (hsized m) name⟩
    · rw [Function.update_of_ne hm,if_neg hm]
      exact ⟨hsized m,rfl⟩

/-- Buffers keep their size, and only building a path changes what is in one. -/
theorem SysAct.exec_buffers {tcb : W.Task} {x : SysAct W ff lf} {s s' : SysState W ff lf}
    {r : x.Resp} (hsized : s.Sized) (h : x.exec tcb s = some (r,s')) :
    s'.Sized ∧ (pathBuffers W ff lf).contents s' =
      (pathBuffers W ff lf).written x ((pathBuffers W ff lf).contents s) := by
  cases x with
  | fat x =>
    obtain ⟨ans,hans,heq⟩ := Option.map_eq_some_iff.mp h
    obtain ⟨rfl,rfl⟩ := Prod.mk.inj heq
    have hm := fat_exec_sized hsized (show x.exec s.fat = some (ans.1,ans.2) from hans)
    refine ⟨fun m => (hm m).1,funext fun m => (hm m).2.trans ?_⟩
    simp only [Scratch.written,pathBuffers]
    cases x.builds with
    | none => rfl
    | some w =>
      simp only [Option.map_some,Function.update_apply]
  | fine x =>
    cases x with
    | vfs x =>
      obtain ⟨ans,_,heq⟩ := Option.map_eq_some_iff.mp h
      obtain ⟨rfl,rfl⟩ := Prod.mk.inj heq
      exact ⟨hsized,rfl⟩
    | _ => cases h
  | lfs x =>
    obtain ⟨ans,_,heq⟩ := Option.map_eq_some_iff.mp h
    obtain ⟨rfl,rfl⟩ := Prod.mk.inj heq
    exact ⟨hsized,rfl⟩
  | _ =>
    obtain ⟨rfl,rfl⟩ := Prod.mk.inj (Option.some.inj h)
    exact ⟨hsized,rfl⟩

end Exec

/-! What the drivers do with their names. -/

/-- Uses the buffer of `m` only, and builds paths of the names there. -/
def FatAct.On (m : W.Mnt) (names : CStr → Prop) (x : FatAct ff) : Prop :=
  (∀ n,x.uses = some n → n = m) ∧ ∀ n name,x.builds = some (n,name) → n = m ∧ names name

section Fat

variable {m : W.Mnt} {names : CStr → Prop}

theorem on_plain {x : FatAct ff} (huses : x.uses = none) (hbuilds : x.builds = none) :
    x.On m names :=
  ⟨fun n h => (by rw [huses] at h; cases h),fun n name h => (by rw [hbuilds] at h; cases h)⟩

theorem on_uses {x : FatAct ff} (huses : x.uses = some m) (hbuilds : x.builds = none) :
    x.On m names :=
  ⟨fun n h => (Option.some.inj (huses.symm.trans h)).symm,
    fun n name h => (by rw [hbuilds] at h; cases h)⟩

theorem on_build {name : CStr} (h : names name) :
    (FatAct.buildAbsPath m name : FatAct ff).On m names := by
  refine ⟨fun n hn => (nomatch hn),fun n name' hn => ?_⟩
  obtain ⟨rfl,rfl⟩ := Prod.mk.inj (Option.some.inj hn)
  exact ⟨rfl,h⟩

theorem onlyOn {x : FatAct ff} (hx : x.On m names) : (Fatfs.act x).Only (FatAct.On m names) :=
  ⟨hx,fun _ => trivial⟩

theorem onOpen {name : CStr} (h : names name) (fd : FatfsFileDesc ff.Fil) (flags : Nat) :
    (Fatfs.open_ m fd name flags).Only (FatAct.On m names) :=
  ⟨on_build h,fun _ => ⟨on_plain rfl rfl,fun _ => ⟨on_uses rfl rfl,fun _ => trivial⟩⟩⟩

theorem onOpendir {name : CStr} (h : names name) (dir : ff.Dir) :
    (Fatfs.opendir m dir name).Only (FatAct.On m names) :=
  ⟨on_build h,fun _ => ⟨on_uses rfl rfl,fun _ => trivial⟩⟩

theorem onFstat (buf : Stat) : (Fatfs.fstat m buf : FatProg ff _).Only (FatAct.On m names) := by
  apply (onlyOn (on_uses rfl rfl)).bind
  intro r
  split
  split <;> trivial

theorem onStat {path : CStr} (h : names path) (buf : Stat) :
    (Fatfs.stat m path buf : FatProg ff _).Only (FatAct.On m names) := by
  apply (onOpen h _ 0).bind
  intro r
  by_cases hfailed : r.1 < 0
  · simp only [if_pos hfailed]
    apply (onOpendir h _).bind
    intro r
    split
    · trivial
    · exact ⟨on_plain rfl rfl,fun _ => trivial⟩
  · simp only [if_neg hfailed]
    apply (onFstat buf).bind
    intro s
    exact ⟨on_plain rfl rfl,fun _ => trivial⟩

end Fat

/-- What a call writes when its argument has the names. -/
def Op.Mine (op : Op W) (_ : W.Mnt) (path : List Char) : Prop :=
  ∃ name,op.Names name ∧ path = absPathOf name

section Fits

variable {m : W.Mnt} {op : Op W} {ρ : Type}

/-- A function of the FatFs adapter that builds its path first. -/
theorem fat_fits {name : CStr} {next : Unit → FatProg ff ρ}
    (hp : (Prog.step (.buildAbsPath m name) next : FatProg ff ρ).Only (FatAct.On m op.Names)) :
    (pathBuffers W ff lf).Fits op.Mine
      (Sys.ofFat (Prog.step (.buildAbsPath m name) next : FatProg ff ρ)) := by
  have honly : (Sys.ofFat (Prog.step (.buildAbsPath m name) next) : SysProg W ff lf ρ).Only
      fun x => (∀ n,(pathBuffers W ff lf).uses x = some n → n = m) ∧
        ∀ n path,(pathBuffers W ff lf).writes x = some (n,path) → op.Mine n path := by
    refine hp.expand fun (x : FatAct ff) (hx : x.On m op.Names) => ?_
    refine ⟨⟨hx.1,fun n path hw => ?_⟩,fun _ => trivial⟩
    obtain ⟨w,hbuilds,heq⟩ := Option.map_eq_some_iff.mp hw
    obtain ⟨rfl,rfl⟩ := Prod.mk.inj heq
    exact ⟨w.2,(hx.2 w.1 w.2 hbuilds).2,rfl⟩
  exact Scratch.fits_first rfl rfl honly

theorem lfs_fits (p : LfsProg lf ρ) :
    (pathBuffers W ff lf).Fits op.Mine (Sys.ofLfs p : SysProg W ff lf ρ) := by
  induction p with
  | ret r => exact Scratch.fits_ret r
  | step x next ih => exact Scratch.fits_step rfl rfl ih

/-- A request for one of the names of the call, or no request at all. -/
def Action.About (names : CStr → Prop) : Action W → Prop
  | .fsCall _ (.unlink name) | .fsCall _ (.mkdir name _) | .fsCall _ (.rmdir name)
  | .fsCall _ (.stat name) | .fsCall _ (.rename name _) => names name
  | .fileCall _ (.open_ name _ _) => names name
  | .dirCall _ (.opendir name) => names name
  | .fsCall _ _ | .fileCall _ _ | .dirCall _ _ => False
  | _ => True

variable (d : Drivers W)

theorem fsCall_fits {req : FsReq} (hreq : (Action.fsCall m req : Action W).About op.Names) :
    (pathBuffers W ff lf).Fits op.Mine (Sys.fsCall d m req) := by
  rw [Sys.fsCall]
  cases d.kind m with
  | littlefs => exact lfs_fits _
  | other => exact Scratch.fits_act rfl rfl
  | fatfs =>
    cases req with
    | format | mount | umount => exact hreq.elim
    | unlink name | mkdir name | rmdir name =>
      exact fat_fits ⟨on_build hreq,fun _ => ⟨on_uses rfl rfl,fun _ => trivial⟩⟩
    | rename fromPath toPath =>
      exact fat_fits ⟨on_build hreq,fun _ => ⟨on_plain rfl rfl,fun _ =>
        ⟨on_uses rfl rfl,fun _ => trivial⟩⟩⟩
    | stat path => exact fat_fits ((onStat hreq Stat.zero).map _)

theorem fileCall_fits {fd : Fd} {req : FileReq}
    (hreq : (Action.fileCall fd req : Action W).About op.Names) :
    (pathBuffers W ff lf).Fits op.Mine (Sys.fileCall d fd req) := by
  cases req with
  | open_ name flags mode =>
    apply (Scratch.fits_act rfl rfl).bind
    intro e
    cases e.mp with
    | none => exact Scratch.fits_step rfl rfl fun r => nomatch r
    | some m =>
      dsimp only
      cases d.kind m with
      | other => exact Scratch.fits_act rfl rfl
      | littlefs =>
        apply (Scratch.fits_act rfl rfl).bind
        intro file
        apply (lfs_fits _).bind
        intro r
        exact (Scratch.fits_act rfl rfl).bind fun _ => Scratch.fits_ret _
      | fatfs =>
        apply (Scratch.fits_act rfl rfl).bind
        intro file
        apply (fat_fits ((onOpen hreq file flags).map _)).bind
        intro r
        exact (Scratch.fits_act rfl rfl).bind fun _ => Scratch.fits_ret _
  | _ => exact hreq.elim

theorem dirCall_fits {dirp : W.Dir} {req : DirReq}
    (hreq : (Action.dirCall dirp req : Action W).About op.Names) :
    (pathBuffers W ff lf).Fits op.Mine (Sys.dirCall d dirp req) := by
  cases req with
  | opendir dirname =>
    apply (Scratch.fits_act rfl rfl).bind
    intro o
    cases o.mp with
    | none => exact Scratch.fits_step rfl rfl fun r => nomatch r
    | some m =>
      dsimp only
      cases d.kind m with
      | other => exact Scratch.fits_act rfl rfl
      | littlefs =>
        apply (Scratch.fits_act rfl rfl).bind
        intro dir
        apply (lfs_fits _).bind
        intro r
        exact (Scratch.fits_act rfl rfl).bind fun _ => Scratch.fits_ret _
      | fatfs =>
        apply (Scratch.fits_act rfl rfl).bind
        intro dir
        apply (fat_fits ((onOpendir hreq dir).map _)).bind
        intro r
        exact (Scratch.fits_act rfl rfl).bind fun _ => Scratch.fits_ret _
  | _ => exact hreq.elim

theorem drive_fits {x : Action W} (hx : x.About op.Names) :
    (pathBuffers W ff lf).Fits op.Mine (Sys.drive d (.vfs x)) := by
  cases x with
  | fsCall m req => exact fsCall_fits d hx
  | fileCall fd req => exact fileCall_fits d hx
  | dirCall dirp req => exact dirCall_fits d hx
  | _ => exact Scratch.fits_act rfl rfl

end Fits

/-! What the operations ask the drivers for. -/

section About

variable {names : CStr → Prop} {ρ : Type}

theorem about_act {x : Action W} (hx : x.About names) : (UcVfs.act x).Only (Action.About names) :=
  ⟨hx,fun _ => trivial⟩

theorem about_then {τ : Type} {x : Action W} {f : x.Resp → VProg W τ} (hx : x.About names)
    (hf : ∀ r,(f r).Only (Action.About names)) :
    (UcVfs.act x >>= f).Only (Action.About names) := (about_act hx).bind hf

theorem about_crash : (crash : VProg W ρ).Only (Action.About names) :=
  ⟨trivial,fun r => nomatch r⟩

theorem about_mountFs (m : W.Mnt) : (mountFs m).Only (Action.About names) := by
  refine about_then trivial fun fs => ?_
  cases fs with
  | none => exact about_crash
  | some fs => trivial

theorem about_fileOps (filp : Fd) : (fileOps (W := W) filp).Only (Action.About names) := by
  refine about_then trivial fun e => ?_
  cases e.fOp with
  | none => exact about_crash
  | some ops => trivial

theorem about_freeFd (fd : Fd) : (freeFd (W := W) fd).Only (Action.About names) := by
  refine about_then trivial fun e => ?_
  cases e.mp with
  | none => exact about_act trivial
  | some m => exact about_then trivial fun _ => about_act trivial

/-- What is found below a mount is a tail of the name. -/
theorem about_findMount {name : CStr} {f : Except Int (W.Mnt × CStr) → VProg W ρ}
    (herr : ∀ res,(f (.error res)).Only (Action.About names))
    (hok : ∀ m n,(f (.ok (m,name.drop n))).Only (Action.About names)) :
    (findMount name >>= f).Only (Action.About names) := by
  refine ⟨trivial,fun r => ?_⟩
  cases r with
  | error res => exact herr res
  | ok r =>
    obtain ⟨m,n⟩ := r
    refine ⟨trivial,fun fs => ?_⟩
    cases fs with
    | none => exact ⟨trivial,fun r => nomatch r⟩
    | some fs =>
      have hwhole : name.drop 0 = name := CStr.ext List.drop_zero
      show (Prog.bind (if fs.flags &&& VFS_FS_FLAG_WANT_ABS_PATH ≠ 0 then pure (.ok (m,name))
        else pure (.ok (m,name.drop n))) f).Only _
      split
      · rw [← hwhole]
        exact hok m 0
      · exact hok m n

end About

namespace Op

variable {op : Op W}

theorem names_drop {arg : CStr} (harg : op.pathArg = some arg) (n : ℕ) : op.Names (arg.drop n) :=
  ⟨arg,harg,n,Or.inl rfl⟩

theorem about_pathOp (op : Op W) (missing : Int) (req : CStr → FsReq) {arg : CStr}
    (harg : op.pathArg = some arg)
    (hreq : ∀ m name,op.Names name → (Action.fsCall m (req name) : Action W).About op.Names) :
    (vfsPathOp missing req arg : VProg W _).Only (Action.About op.Names) := by
  apply about_findMount
  · intro res
    trivial
  · intro m n
    apply (about_mountFs m).bind
    intro fs
    cases fs.fsCallback (req (arg.drop n)) with
    | none => exact about_then trivial fun _ => trivial
    | some _ =>
      refine about_then (hreq m _ (names_drop harg n)) fun ans => ?_
      exact about_then trivial fun _ => trivial

/-- The drivers are asked for the names that the argument has. -/
theorem about_prog (hop : op.OnPath) : op.prog.Only (Action.About op.Names) := by
  cases op with
  | unlink name =>
    cases name with
    | none => trivial
    | some arg => exact (about_pathOp (unlink (some arg)) EROFS .unlink rfl fun _ _ h => h).map _
  | mkdir name mode =>
    cases name with
    | none => trivial
    | some arg =>
      exact (about_pathOp (mkdir (some arg) mode) ENOTSUP (.mkdir · mode) rfl fun _ _ h => h).map _
  | rmdir name =>
    cases name with
    | none => trivial
    | some arg => exact (about_pathOp (rmdir (some arg)) ENOTSUP .rmdir rfl fun _ _ h => h).map _
  | stat path buf =>
    cases path with
    | none => trivial
    | some arg =>
      cases buf with
      | none => trivial
      | some buf =>
        apply Only.map
        exact (about_pathOp (stat (some arg) (some buf)) EPERM .stat rfl fun _ _ h => h).bind
          fun _ => trivial
  | rename fromPath toPath =>
    cases fromPath with
    | none => trivial
    | some arg =>
      cases toPath with
      | none => trivial
      | some toPath =>
        apply about_findMount
        · intro res
          trivial
        · intro m n
          apply (about_mountFs m).bind
          intro fs
          cases fs.fsOp.bind (·.rename) with
          | none => exact about_then trivial fun _ => trivial
          | some _ =>
            apply about_findMount
            · intro res
              exact about_then trivial fun _ => trivial
            · intro mTo nTo
              by_cases hother : mTo ≠ m
              · simp only [if_pos hother]
                exact about_then trivial fun _ => about_then trivial fun _ => trivial
              · simp only [if_neg hother]
                refine about_then (names_drop rfl n) fun ans => ?_
                exact about_then trivial fun _ => about_then trivial fun _ => trivial
  | open_ name flags mode =>
    cases name with
    | none => trivial
    | some arg =>
      apply about_findMount
      · intro res
        trivial
      · intro m n
        apply (about_mountFs m).bind
        intro fs
        refine about_then trivial fun r => ?_
        cases r with
        | error res => exact about_then trivial fun _ => trivial
        | ok filp =>
          apply (about_fileOps filp).bind
          intro ops
          split
          · refine about_then (names_drop rfl n) fun ans => ?_
            split
            · exact (about_freeFd filp).bind fun _ => trivial
            · trivial
          · trivial
  | opendir dirp dirname =>
    cases dirp with
    | none => trivial
    | some dirp =>
      cases dirname with
      | none => trivial
      | some arg =>
        apply about_findMount
        · intro res
          trivial
        · intro m n
          apply (about_mountFs m).bind
          intro fs
          cases fs.dOp with
          | none => trivial
          | some dOp =>
            refine about_then trivial fun _ => ?_
            split
            · have hname : (opendir (some dirp) (some arg)).Names
                  (if (arg.drop n).at_ 0 = nul then CStr.root else arg.drop n) := by
                by_cases hempty : (arg.drop n).at_ 0 = nul
                · rw [if_pos hempty]
                  refine ⟨arg,rfl,n,Or.inr ⟨rfl,?_⟩⟩
                  cases hchars : (arg.drop n).chars with
                  | nil => rfl
                  | cons c cs =>
                    have hc : c = nul := by simpa [CStr.at_,hchars] using hempty
                    exact absurd (by rw [hchars,hc]; exact List.mem_cons_self) (arg.drop n).noNul
                · rw [if_neg hempty]
                  exact names_drop rfl n
              refine about_then hname fun ans => ?_
              split
              · exact about_then trivial fun _ => trivial
              · trivial
            · trivial
  | _ => exact hop.elim

end Op

theorem pathSystem_serves (d : Drivers W) :
    (pathBuffers W ff lf).Serves (pathSystem ff lf d) SysState.Sized Op.OnPath Op.Mine where
  next := rfl
  begin _ _ _ := rfl
  exec _ _ _ _ _ hsized h := SysAct.exec_buffers hsized h
  prog op hop := Scratch.fits_expand (fun _ hx => drive_fits d hx) (op.about_prog hop)

/-- FatFs reads the path from the buffer of the mount. -/
theorem FatAct.exec_calls {x : FatAct ff} {m : W.Mnt} (hx : x.uses = some m) {s s' : FatState ff}
    {r : x.Resp} (h : x.exec s = some (r,s')) :
    ∃ call,s'.calls = call :: s.calls ∧ call.paths.head? = some (s.descs m).absPath := by
  cases x with
  | mount | unmount | open_ | stat | unlink | rename | mkdir | opendir =>
    obtain rfl := Option.some.inj hx
    obtain ⟨_,rfl⟩ := Prod.mk.inj (Option.some.inj h)
    exact ⟨_,rfl,rfl⟩
  | _ => cases hx

abbrev PathConfig (W : World) (ff : FatFs W.Mnt) (lf : LittleFs W.Mnt) :=
  Config (@SysAct.Resp W ff lf) (SysState W ff lf) Unit W.Task (Op W) Int
    (W.Mnt → Option (List Char))

/-- Each call of FatFs that is about to be made with the buffer of a mount will be given the path
that the same call of the VFS has built there last, out of its own argument. -/
def OwnPaths (c : PathConfig W ff lf) : Prop :=
  ∀ i op h x next m,c.task i = .busy op h (.step (.fat x) next) → x.uses = some m →
    ∃ name,op.Names name ∧ h m = some (absPathOf name) ∧
      ∀ r s',SysAct.exec i (.fat x) c.shared = some (r,s') →
        ∃ call path,s'.fat.calls = call :: c.shared.fat.calls ∧ call.paths.head? = some path ∧
          path.chars = absPathOf name

section Demo

/-- A FatFs that answers every call with `FR_OK`. -/
def willingFat (Mnt : Type) : FatFs Mnt where
  Fil := Unit
  Dir := Unit
  σ := Unit
  zeroFil := ()
  zeroDir := ()
  openDisk _ _ := (true,())
  clear _ _ := ()
  mount _ _ _ := (.ok,())
  unmount _ _ := (.ok,())
  mkfs _ _ := (.ok,())
  open_ _ _ _ _ := (.ok,(),())
  close _ _ := (.ok,(),())
  read _ _ _ := ((.ok,[]),(),())
  write src _ _ := ((.ok,src.length),(),())
  sync _ _ := (.ok,(),())
  lseek _ _ _ := (.ok,(),())
  tell _ := 0
  size _ := 0
  stat _ _ := ((.ok,⟨0,0,0,0,[]⟩),())
  unlink _ _ := (.ok,())
  rename _ _ _ := (.ok,())
  mkdir _ _ := (.ok,())
  opendir _ _ _ := (.ok,(),())
  readdir _ _ := ((.ok,⟨0,0,0,0,[]⟩),(),())
  closedir _ _ := (.ok,(),())

/-- A table with nothing but `unlink`. -/
def unlinkFs : FileSystem demo where
  fOp := none
  dOp := none
  fsOp := some ⟨none,none,none,none,some fun _ _ _ => ⟨0,Stat.zero,()⟩,none,none,none⟩
  flags := 0

/-- One FatFs mount on `/`, and nothing else. -/
def oneFat : SysState demo (willingFat (Fin 2)) (brokenLfs (Fin 2)) where
  vfs :=
    { demoState none with
      mounts := fun _ => ⟨some unlinkFs,some CStr.root,1,0⟩
      mountsList := ⟨some demoMnt,fun m => if m = demoMnt then some demoMnt else none⟩ }
  fat := ⟨fun _ => ⟨1,0,List.replicate FATFS_MAX_ABS_PATH_SIZE nul⟩,0,(),[]⟩
  lfs := ⟨fun _ => ⟨⟨0,0,0,0,0,0,0⟩,none,0,0,0⟩,(),⟨0,0,[]⟩⟩
  fatFiles := fun _ => ⟨(),[]⟩
  fatDirs := fun _ => ()
  lfsFiles := fun _ => ()
  lfsDirs := fun _ => ()

def fatDrivers : Drivers demo := ⟨fun _ => .fatfs,fun _ => 1⟩

abbrev DemoConfig := PathConfig demo (willingFat (Fin 2)) (brokenLfs (Fin 2))

abbrev DemoLabel :=
  Label (@SysAct.Resp demo (willingFat (Fin 2)) (brokenLfs (Fin 2))) demo.Task (Op demo) Int

def quiet : DemoConfig := ⟨oneFat,(),fun _ => .idle⟩

/-- A call of `vfs_unlink`, as far as the path has been built. -/
def unlinking (i : Fin 2) (c : Char) (hc : nul ∉ ['/',c]) : List (Move demo.Task (Op demo)) :=
  callFor i (.unlink (some ⟨['/',c],hc⟩)) 4

/-- The task is about to unlink with another path in the buffer than the one that it has built. -/
def mixedUp (c : DemoConfig) (i : demo.Task) : Bool :=
  match c.task i with
  | .busy _ h (.step (.fat (.unlink m)) _) => h m ≠ some (c.shared.fat.descs m).absPath.chars
  | _ => false

theorem not_ownPaths {c : DemoConfig} {i : demo.Task} (h : mixedUp c i = true) : ¬OwnPaths c := by
  intro hown
  rw [mixedUp] at h
  split at h
  · rename_i op held m next hi
    obtain ⟨name,_,hheld,hcall⟩ := hown i op held (.unlink m) next m hi rfl
    obtain ⟨call,path,hcalls,hfirst,hpath⟩ := hcall _ _ rfl
    obtain rfl := (List.cons.inj hcalls).1
    have hpath' : path = (c.shared.fat.descs m).absPath := (Option.some.inj hfirst).symm
    rw [hpath'] at hpath
    rw [hpath] at h
    exact absurd hheld (of_decide_eq_true h)
  · cases h

/-- Only operations on paths are called. -/
def OnlyPaths (_ : DemoConfig) : DemoLabel → Prop
  | .start _ op => op.OnPath
  | _ => True

/-- And a path is built only while no other call in progress has built one. -/
def InTurn (c : DemoConfig) (l : DemoLabel) : Prop :=
  (pathBuffers demo _ _).Unshared (pathSystem _ _ fatDrivers) c l ∧ OnlyPaths c l

instance (op : Op demo) : Decidable op.OnPath := by
  cases op <;> unfold Op.OnPath <;> infer_instance

instance (c : DemoConfig) (l : DemoLabel) : Decidable (OnlyPaths c l) := by
  cases l <;> unfold OnlyPaths <;> infer_instance

instance (c : DemoConfig) (l : DemoLabel) : Decidable (InTurn c l) := by
  unfold InTurn Scratch.Unshared
  cases l <;> infer_instance

/-- The first task unlinks `/a` while the second one looks up the mount of `/b`, and the second
one builds its path while the first one looks up the mount of `/c`. -/
def takingTurns : List (Move demo.Task (Op demo)) :=
  callFor firstTask (.unlink (some (CStr.ofList ['/','a']))) 2 ++
    callFor secondTask (.unlink (some (CStr.ofList ['/','b']))) 2 ++
    List.replicate 5 (.go firstTask) ++
    callFor firstTask (.unlink (some (CStr.ofList ['/','c']))) 2 ++
    List.replicate 2 (.go secondTask)

end Demo

end UcVfs
