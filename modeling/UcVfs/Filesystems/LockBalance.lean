import UcVfs.Fatfs.Adapter
import UcVfs.Fatfs.DirVolume
import UcVfs.Littlefs.Adapter
import UcVfs.Vfs.Footprint
import UcVfs.Vfs.Locking
import UcVfs.Vfs.Runs

/-!
# Every lock is given back

The operations of `vfs.c` with the steps of their locked regions and of the drivers that they
call. What the list, the tables, FatFs and littlefs answer is left open.
-/

namespace UcVfs

open Framework Prog

inductive DriverKind
  | fatfs
  | littlefs
  | other
  deriving DecidableEq

/-- The driver and the disk number of each mount object. -/
structure Drivers (W : World) where
  kind : W.Mnt → DriverKind
  dno : W.Mnt → UInt8

inductive SysMutex (W : World)
  | vfs (l : VfsMutex)
  | work
  | lfs (m : W.Mnt)
  deriving DecidableEq

variable {W : World} {ff : FatFs W.Mnt} {lf : LittleFs W.Mnt}

/-- A step of the whole system. The private data of a file or DIR object is the object of its
driver. -/
inductive SysAct (W : World) (ff : FatFs W.Mnt) (lf : LittleFs W.Mnt)
  | fine (x : FineAct W)
  | fat (x : FatAct ff)
  | lfs (x : LfsAct lf)
  | fatFile (fd : Fd)
  | setFatFile (fd : Fd) (file : FatfsFileDesc ff.Fil)
  | fatDir (d : W.Dir)
  | setFatDir (d : W.Dir) (dir : ff.Dir)
  | lfsFile (fd : Fd)
  | setLfsFile (fd : Fd) (file : lf.File)
  | lfsDir (d : W.Dir)
  | setLfsDir (d : W.Dir) (dir : lf.Dir)

abbrev SysAct.Resp : SysAct W ff lf → Type
  | fine x => x.Resp
  | fat x => x.Resp
  | lfs x => x.Resp
  | fatFile _ => FatfsFileDesc ff.Fil
  | fatDir _ => ff.Dir
  | lfsFile _ => lf.File
  | lfsDir _ => lf.Dir
  | setFatFile _ _ | setFatDir _ _ | setLfsFile _ _ | setLfsDir _ _ => Unit

abbrev SysProg (W : World) (ff : FatFs W.Mnt) (lf : LittleFs W.Mnt) (ρ : Type) :=
  Prog (@SysAct.Resp W ff lf) ρ

/-! The callbacks of the drivers. -/

def fatFsCall (m : W.Mnt) : FsReq → FatProg ff FsRet
  | .format => (⟨·,Stat.zero⟩) <$> Fatfs.format m
  | .mount => (⟨·,Stat.zero⟩) <$> Fatfs.mount m
  | .umount => (⟨·,Stat.zero⟩) <$> Fatfs.umount m
  | .rename fromPath toPath => (⟨·,Stat.zero⟩) <$> Fatfs.rename m fromPath toPath
  | .unlink name => (⟨·,Stat.zero⟩) <$> Fatfs.unlink m name
  | .mkdir name _ => (⟨·,Stat.zero⟩) <$> Fatfs.mkdir m name
  | .rmdir name => (⟨·,Stat.zero⟩) <$> Fatfs.rmdir m name
  | .stat path => (fun r => ⟨r.1,r.2⟩) <$> Fatfs.stat m path Stat.zero

def fatFileCall (m : W.Mnt) (fd : FatfsFileDesc ff.Fil) :
    FileReq → FatProg ff (FileRet × FatfsFileDesc ff.Fil)
  | .open_ name flags _ => (fun r => (⟨r.1,[],Stat.zero⟩,r.2)) <$> Fatfs.open_ m fd name flags
  | .close => (fun r => (⟨r.1,[],Stat.zero⟩,r.2)) <$> Fatfs.close fd
  | .fstat => (fun r => (⟨r.1,[],r.2⟩,fd)) <$> Fatfs.fstat m Stat.zero
  | .lseek off whence => (fun r => (⟨r.1,[],Stat.zero⟩,r.2)) <$> Fatfs.lseek fd off whence
  | .read nbytes => (fun r => (⟨r.1.1,r.1.2,Stat.zero⟩,r.2)) <$> Fatfs.read fd nbytes
  | .write src => (fun r => (⟨r.1,[],Stat.zero⟩,r.2)) <$> Fatfs.write fd src
  | .fsync => (fun r => (⟨r.1,[],Stat.zero⟩,r.2)) <$> Fatfs.fsync fd

def fatDirCall (m : W.Mnt) (dir : ff.Dir) : DirReq → FatProg ff (DirRet × ff.Dir)
  | .opendir dirname => (fun r => (⟨r.1,⟨0,[]⟩⟩,r.2)) <$> Fatfs.opendir m dir dirname
  | .readdir entry => (fun r => (⟨r.1.1,r.1.2⟩,r.2)) <$> Fatfs.readdir dir entry
  | .closedir => (fun r => (⟨r.1,⟨0,[]⟩⟩,r.2)) <$> Fatfs.closedir dir

def lfsFsCall (m : W.Mnt) (dno : UInt8) : FsReq → LfsProg lf FsRet
  | .format => (⟨·,Stat.zero⟩) <$> Littlefs.Driver.format m dno
  | .mount => (⟨·,Stat.zero⟩) <$> Littlefs.Driver.mount m dno
  | .umount => (⟨·,Stat.zero⟩) <$> Littlefs.Driver.umount m
  | .rename fromPath toPath => (⟨·,Stat.zero⟩) <$> Littlefs.Driver.rename m fromPath toPath
  | .unlink name => (⟨·,Stat.zero⟩) <$> Littlefs.Driver.unlink m name
  | .mkdir name _ => (⟨·,Stat.zero⟩) <$> Littlefs.Driver.mkdir m name
  | .rmdir name => (⟨·,Stat.zero⟩) <$> Littlefs.Driver.rmdir m name
  | .stat path => (fun r => ⟨r.1,r.2⟩) <$> Littlefs.Driver.stat m path Stat.zero

/-- littlefs has no `fstat`. -/
def lfsFileCall (m : W.Mnt) (fp : lf.File) : FileReq → Option (LfsProg lf (FileRet × lf.File))
  | .open_ name flags _ =>
    some ((fun r => (⟨r.1,[],Stat.zero⟩,r.2)) <$> Littlefs.Driver.open_ m fp name flags)
  | .close => some ((fun r => (⟨r.1,[],Stat.zero⟩,r.2)) <$> Littlefs.Driver.close m fp)
  | .fstat => none
  | .lseek off whence =>
    some ((fun r => (⟨r.1,[],Stat.zero⟩,r.2)) <$> Littlefs.Driver.lseek m fp off whence)
  | .read nbytes =>
    some ((fun r => (⟨r.1.1,r.1.2,Stat.zero⟩,r.2)) <$> Littlefs.Driver.read m fp nbytes)
  | .write src => some ((fun r => (⟨r.1,[],Stat.zero⟩,r.2)) <$> Littlefs.Driver.write m fp src)
  | .fsync => some ((fun r => (⟨r.1,[],Stat.zero⟩,r.2)) <$> Littlefs.Driver.fsync m fp)

def lfsDirCall (m : W.Mnt) (dir : lf.Dir) : DirReq → LfsProg lf (DirRet × lf.Dir)
  | .opendir dirname => (fun r => (⟨r.1,⟨0,[]⟩⟩,r.2)) <$> Littlefs.Driver.opendir m dir dirname
  | .readdir entry => (fun r => (⟨r.1.1,r.1.2⟩,r.2)) <$> Littlefs.Driver.readdir m dir entry
  | .closedir => (fun r => (⟨r.1,⟨0,[]⟩⟩,r.2)) <$> Littlefs.Driver.closedir m dir

namespace Sys

abbrev act (x : SysAct W ff lf) : SysProg W ff lf x.Resp := Prog.act x

def ofFat {ρ : Type} (p : FatProg ff ρ) : SysProg W ff lf ρ := p.expand fun x => act (.fat x)

def ofLfs {ρ : Type} (p : LfsProg lf ρ) : SysProg W ff lf ρ := p.expand fun x => act (.lfs x)

def crash {ρ : Type} : SysProg W ff lf ρ := Prog.step (.fine (.vfs .fault)) fun r => nomatch r

variable (d : Drivers W)

def fsCall (m : W.Mnt) (req : FsReq) : SysProg W ff lf FsRet :=
  match d.kind m with
  | .fatfs => ofFat (fatFsCall m req)
  | .littlefs => ofLfs (lfsFsCall m (d.dno m) req)
  | .other => act (.fine (.vfs (.fsCall m req)))

def fileCall (fd : Fd) (req : FileReq) : SysProg W ff lf FileRet := do
  let e ← act (.fine (.vfs (.file fd)))
  match e.mp with
  | none => crash
  | some m =>
    match d.kind m with
    | .fatfs =>
      let file ← act (.fatFile fd)
      let (res,file) ← ofFat (fatFileCall m file req)
      act (.setFatFile fd file)
      pure res
    | .littlefs =>
      let file ← act (.lfsFile fd)
      match lfsFileCall m file req with
      | none => crash
      | some p =>
        let (res,file) ← ofLfs p
        act (.setLfsFile fd file)
        pure res
    | .other => act (.fine (.vfs (.fileCall fd req)))

def dirCall (dirp : W.Dir) (req : DirReq) : SysProg W ff lf DirRet := do
  let o ← act (.fine (.vfs (.dir dirp)))
  match o.mp with
  | none => crash
  | some m =>
    match d.kind m with
    | .fatfs =>
      let dir ← act (.fatDir dirp)
      let (res,dir) ← ofFat (fatDirCall m dir req)
      act (.setFatDir dirp dir)
      pure res
    | .littlefs =>
      let dir ← act (.lfsDir dirp)
      let (res,dir) ← ofLfs (lfsDirCall m dir req)
      act (.setLfsDir dirp dir)
      pure res
    | .other => act (.fine (.vfs (.dirCall dirp req)))

/-- A callback is the code of its driver. -/
def drive : (x : FineAct W) → SysProg W ff lf x.Resp
  | .vfs (.fsCall m req) => fsCall d m req
  | .vfs (.fileCall fd req) => fileCall d fd req
  | .vfs (.dirCall dirp req) => dirCall d dirp req
  | x => act (.fine x)

def ofFine {ρ : Type} (p : Fine.FProg W ρ) : SysProg W ff lf ρ := p.expand (drive d)

end Sys

variable (ff lf) in
/-- The steps of a call. -/
def Op.system (d : Drivers W) (op : Op W) : SysProg W ff lf Int :=
  op.prog.expand fun x => Sys.ofFine d x.fine

/-! What the steps do to the locks. -/

def FineAct.event : FineAct W → LockEvent (SysMutex W)
  | lock l => .lock (.vfs l)
  | unlock l => .unlock (.vfs l)
  | listHead | listFind _ | listSearch _ _ | listRpush _ | listRemove _ => .guarded (.vfs .mount)
  | _ => .none

def FatAct.event : FatAct ff → LockEvent (SysMutex W)
  | lockWork => .lock .work
  | unlockWork => .unlock .work
  | _ => .none

def LfsAct.event : LfsAct lf → LockEvent (SysMutex W)
  | lock m => .lock (.lfs m)
  | unlock m => .unlock (.lfs m)
  | _ => .none

def SysAct.event : SysAct W ff lf → LockEvent (SysMutex W)
  | fine x => x.event
  | fat x => x.event
  | lfs x => x.event
  | _ => .none

/-- What is known of the answers in a call made in the state `s`: the mount objects are those of
the caller, `clist_find` finds what is mounted, and FatFs finds a disk when the mount names one.
What the tables, FatFs and littlefs answer is open. -/
def Drivers.Answers (d : Drivers W) (s : State W) : (x : SysAct W ff lf) → x.Resp → Prop
  | .fat (.openDisk m),found => found = (ramdiskOpen (d.dno m).toNat).isSome
  | .fine (.mountObj m),o => o.fs = (s.mounts m).fs ∧ o.mountPoint = (s.mounts m).mountPoint
  | .fine (.listFind m),found => found.isSome = decide (s.Mounted m)
  | .fine (.vfs (.fs m)),fs => fs = (s.mounts m).fs
  | _,_ => True

variable (ff lf) in
def Drivers.rules (d : Drivers W) (s : State W) :
    Discipline (@SysAct.Resp W ff lf) (SysMutex W → ℕ) :=
  lockRules SysAct.event (d.Answers s)

/-- These are the answers that the steps give while the list and the mount objects are those of
`s`. -/
theorem Drivers.answers_exec (d : Drivers W) {s s₁ s₂ : State W} {xs : List W.Mnt}
    (hxs : s.Listed xs) (hlist : s₁.mountsList = s.mountsList)
    (hmounts : ∀ m,(s₁.mounts m).fs = (s.mounts m).fs ∧
      (s₁.mounts m).mountPoint = (s.mounts m).mountPoint) {tcb : W.Task} {x : FineAct W}
    {r : x.Resp} (hexec : x.exec tcb s₁ = some (r,s₂)) :
    d.Answers s (SysAct.fine x : SysAct W ff lf) r := by
  cases x with
  | mountObj m =>
    obtain ⟨rfl,_⟩ : s₁.mounts m = r ∧ s₁ = s₂ := by simpa [FineAct.exec] using hexec
    exact hmounts m
  | listFind m =>
    have hfind : s.mountsList.find (listBound W) m = some r := by
      rw [← hlist]
      simp only [FineAct.exec,Option.map_eq_some_iff] at hexec
      obtain ⟨node,hnode,he⟩ := hexec
      cases he
      exact hnode
    have hm := hxs.mounted_iff m
    rw [hxs.repr.find hxs.length_le] at hfind
    show r.isSome = decide (s.Mounted m)
    by_cases hin : m ∈ xs
    · obtain rfl : some m = r := by simpa [hin] using hfind
      simp [hm.mpr hin]
    · obtain rfl : none = r := by simpa [hin] using hfind
      have hno : ¬s.Mounted m := fun h => hin (hm.mp h)
      simp [hno]
  | vfs x =>
    cases x with
    | fs m =>
      obtain ⟨rfl,_⟩ : (s₁.mounts m).fs = r ∧ s₁ = s₂ := by
        simpa [FineAct.exec,Action.exec] using hexec
      exact (hmounts m).1
    | _ => trivial
  | _ => trivial

/-- Not `work_mtx`. -/
def FatAct.NoWork (x : FatAct ff) : Prop := x ≠ .lockWork ∧ x ≠ .unlockWork

section Fat

theorem onlyFat {x : FatAct ff} (hx : x.NoWork) : (Fatfs.act x).Only FatAct.NoWork :=
  ⟨hx,fun _ => trivial⟩

/-- One action, and what is made of its answer. -/
theorem onlyFat_then {ρ : Type} {x : FatAct ff} {f : x.Resp → FatProg ff ρ} (hx : x.NoWork)
    (hf : ∀ r,(f r).Only FatAct.NoWork) : (Fatfs.act x >>= f).Only FatAct.NoWork :=
  (onlyFat hx).bind hf

theorem fatInit_noWork (m : W.Mnt) : (Fatfs.init m : FatProg ff Int).Only FatAct.NoWork := by
  apply onlyFat_then ⟨by simp,by simp⟩
  intro found
  split <;> trivial

theorem fatMount_noWork (m : W.Mnt) : (Fatfs.mount m : FatProg ff Int).Only FatAct.NoWork := by
  apply (fatInit_noWork m).bind
  intro err
  split
  · trivial
  · apply onlyFat_then ⟨by simp,by simp⟩
    intro _
    apply onlyFat_then ⟨by simp,by simp⟩
    intro _
    exact onlyFat_then ⟨by simp,by simp⟩ fun _ => trivial

theorem fatUmount_noWork (m : W.Mnt) : (Fatfs.umount m : FatProg ff Int).Only FatAct.NoWork := by
  apply onlyFat_then ⟨by simp,by simp⟩
  intro _
  apply onlyFat_then ⟨by simp,by simp⟩
  intro res
  split
  · exact onlyFat_then ⟨by simp,by simp⟩ fun _ => trivial
  · trivial

/-- A path is built and a function is called. -/
theorem fatPath_noWork {ρ : Type} (m : W.Mnt) (name : CStr) {x : FatAct ff}
    {f : x.Resp → FatProg ff ρ} (hx : x.NoWork) (hf : ∀ r,(f r).Only FatAct.NoWork) :
    (Fatfs.act (.buildAbsPath m name) >>= fun _ => Fatfs.act x >>= f).Only FatAct.NoWork :=
  onlyFat_then ⟨by simp,by simp⟩ fun _ => onlyFat_then hx hf

theorem fatOpen_noWork (m : W.Mnt) (fd : FatfsFileDesc ff.Fil) (name : CStr) (flags : Nat) :
    (Fatfs.open_ m fd name flags).Only FatAct.NoWork :=
  fatPath_noWork m name ⟨by simp,by simp⟩ fun _ =>
    onlyFat_then ⟨by simp,by simp⟩ fun _ => trivial

theorem fatOpendir_noWork (m : W.Mnt) (dir : ff.Dir) (name : CStr) :
    (Fatfs.opendir m dir name).Only FatAct.NoWork :=
  fatPath_noWork m name ⟨by simp,by simp⟩ fun _ => trivial

theorem fatFstat_noWork (m : W.Mnt) (buf : Stat) :
    (Fatfs.fstat m buf : FatProg ff _).Only FatAct.NoWork := by
  apply onlyFat_then ⟨by simp,by simp⟩
  intro r
  split
  split <;> trivial

theorem fatSeekTo_noWork (fd : FatfsFileDesc ff.Fil) (newPos : Int) :
    (Fatfs.seekTo fd newPos).Only FatAct.NoWork := by
  apply onlyFat_then ⟨by simp,by simp⟩
  intro r
  obtain ⟨res,file⟩ := r
  dsimp only
  split <;> trivial

theorem fatClose_noWork (fd : FatfsFileDesc ff.Fil) : (Fatfs.close fd).Only FatAct.NoWork :=
  onlyFat_then ⟨by simp,by simp⟩ fun _ => trivial

theorem fatClosedir_noWork (dir : ff.Dir) : (Fatfs.closedir dir).Only FatAct.NoWork :=
  onlyFat_then ⟨by simp,by simp⟩ fun _ => trivial

theorem fatUnlink_noWork (m : W.Mnt) (name : CStr) :
    (Fatfs.unlink m name : FatProg ff Int).Only FatAct.NoWork :=
  fatPath_noWork m name ⟨by simp,by simp⟩ fun _ => trivial

theorem fatMkdir_noWork (m : W.Mnt) (name : CStr) :
    (Fatfs.mkdir m name : FatProg ff Int).Only FatAct.NoWork :=
  fatPath_noWork m name ⟨by simp,by simp⟩ fun _ => trivial

theorem fatFsync_noWork (fd : FatfsFileDesc ff.Fil) : (Fatfs.fsync fd).Only FatAct.NoWork :=
  onlyFat_then ⟨by simp,by simp⟩ fun _ => trivial

theorem fatStat_noWork (m : W.Mnt) (path : CStr) (buf : Stat) :
    (Fatfs.stat m path buf : FatProg ff _).Only FatAct.NoWork := by
  apply (fatOpen_noWork m _ path 0).bind
  intro r
  by_cases hfailed : r.1 < 0
  · simp only [if_pos hfailed]
    apply (fatOpendir_noWork m _ path).bind
    intro r
    split
    · trivial
    · exact (fatClosedir_noWork r.2).bind fun _ => trivial
  · simp only [if_neg hfailed]
    apply (fatFstat_noWork m buf).bind
    intro s
    exact (fatClose_noWork r.2).bind fun _ => trivial

/-- Only formatting takes `work_mtx`. -/
theorem fatFsCall_noWork (m : W.Mnt) {req : FsReq} (hreq : req ≠ .format) :
    (fatFsCall m req : FatProg ff FsRet).Only FatAct.NoWork := by
  cases req with
  | format => exact absurd rfl hreq
  | mount => exact (fatMount_noWork m).map _
  | umount => exact (fatUmount_noWork m).map _
  | rename fromPath toPath =>
    apply Only.map
    apply fatPath_noWork m fromPath ⟨by simp,by simp⟩
    intro fsDesc
    exact onlyFat_then ⟨by simp,by simp⟩ fun _ => trivial
  | unlink name => exact (fatUnlink_noWork m name).map _
  | mkdir name mode => exact (fatMkdir_noWork m name).map _
  | rmdir name => exact (fatUnlink_noWork m name).map _
  | stat path => exact (fatStat_noWork m path _).map _

theorem fatFileCall_noWork (m : W.Mnt) (fd : FatfsFileDesc ff.Fil) (req : FileReq) :
    (fatFileCall m fd req).Only FatAct.NoWork := by
  cases req with
  | open_ name flags mode => exact (fatOpen_noWork m fd name flags).map _
  | close => exact (fatClose_noWork fd).map _
  | fstat => exact (fatFstat_noWork m _).map _
  | lseek off whence =>
    apply Only.map
    unfold Fatfs.lseek
    split
    · exact fatSeekTo_noWork fd _
    · split
      · exact fatSeekTo_noWork fd _
      · split
        · exact fatSeekTo_noWork fd _
        · trivial
  | read nbytes =>
    apply Only.map
    apply onlyFat_then ⟨by simp,by simp⟩
    intro r
    split
    split <;> trivial
  | write src =>
    apply Only.map
    apply onlyFat_then ⟨by simp,by simp⟩
    intro r
    split
    split <;> trivial
  | fsync => exact (fatFsync_noWork fd).map _

theorem fatDirCall_noWork (m : W.Mnt) (dir : ff.Dir) (req : DirReq) :
    (fatDirCall m dir req).Only FatAct.NoWork := by
  cases req with
  | opendir dirname => exact (fatOpendir_noWork m dir dirname).map _
  | readdir entry =>
    apply Only.map
    apply onlyFat_then ⟨by simp,by simp⟩
    intro r
    split
    split
    · split <;> trivial
    · trivial
  | closedir => exact (fatClosedir_noWork dir).map _

end Fat

/-- Not the mutex of a descriptor. -/
def LfsAct.NoLock (x : LfsAct lf) : Prop := ∀ m,x ≠ .lock m ∧ x ≠ .unlock m

section Keeps

variable {d : Drivers W} {s : State W} {ρ : Type}

theorem lfs_event {x : LfsAct lf} (hx : x.NoLock) :
    (SysAct.lfs x : SysAct W ff lf).event = .none := by
  cases x with
  | lock m => exact absurd rfl (hx m).1
  | unlock m => exact absurd rfl (hx m).2
  | _ => rfl

theorem ofFat_keeps {p : FatProg ff ρ} (hp : p.Only FatAct.NoWork) :
    (Sys.ofFat p : SysProg W ff lf ρ).Keeps (d.rules ff lf s) fun _ => True := by
  apply hp.keeps_expand
  intro x hx
  apply keeps_none
  cases x with
  | lockWork => exact absurd rfl hx.1
  | unlockWork => exact absurd rfl hx.2
  | _ => rfl

theorem ofLfs_keeps {P : (SysMutex W → ℕ) → Prop} {p : LfsProg lf ρ}
    (hp : p.Only LfsAct.NoLock) : (Sys.ofLfs p : SysProg W ff lf ρ).Keeps (d.rules ff lf s) P := by
  apply hp.keeps_expand
  intro x hx
  exact keeps_none (lfs_event hx)

theorem locked_keeps (m : W.Mnt) {p : LfsProg lf ρ} (hp : p.Only LfsAct.NoLock) :
    (Sys.ofLfs (Littlefs.Driver.locked m p) : SysProg W ff lf ρ).Keeps (d.rules ff lf s)
      fun _ => True := by
  refine keeps_locked rfl fun _ => ?_
  show Releases _ _ _ ((p >>= _).expand _)
  rw [expand_bind]
  apply releases_bind (ofLfs_keeps hp)
  intro r
  exact releases_unlock rfl fun _ => keeps_ret _

theorem ofLfs_map {τ : Type} (f : ρ → τ) (p : LfsProg lf ρ) :
    (Sys.ofLfs (f <$> p) : SysProg W ff lf τ) = f <$> Sys.ofLfs p :=
  expand_bind _ p fun r => Prog.ret (f r)

theorem ofFat_map {τ : Type} (f : ρ → τ) (p : FatProg ff ρ) :
    (Sys.ofFat (f <$> p) : SysProg W ff lf τ) = f <$> Sys.ofFat p :=
  expand_bind _ p fun r => Prog.ret (f r)

theorem onlyLfs {x : LfsAct lf} (hx : x.NoLock) : (Littlefs.Driver.act x).Only LfsAct.NoLock :=
  ⟨hx,fun _ => trivial⟩

/-- One function of littlefs under the mutex. -/
theorem lockedCall_keeps {τ : Type} (m : W.Mnt) {x : LfsAct lf} (hx : x.NoLock)
    (f : x.Resp → τ) :
    (Sys.ofLfs (f <$> Littlefs.Driver.locked m (Littlefs.Driver.act x)) :
      SysProg W ff lf τ).Keeps (d.rules ff lf s) fun _ => True := by
  rw [ofLfs_map]
  exact (locked_keeps m (onlyLfs hx)).map f

/-- `prepare` holds the mutex exactly when it succeeds. -/
theorem prepare_keeps (m : W.Mnt) (dno : UInt8) {x : LfsAct lf} (hx : x.NoLock)
    {p : Int → LfsProg lf ρ} {f : x.Resp → ρ} (hfail : ∀ res,res ≠ 0 → ∃ r,p res = pure r)
    (hok : p 0 = do
      let ret ← Littlefs.Driver.act x
      Littlefs.Driver.act (.unlock m)
      pure (f ret)) :
    (Sys.ofLfs (Littlefs.Driver.prepare m dno >>= p) : SysProg W ff lf ρ).Keeps (d.rules ff lf s)
      fun _ => True := by
  refine keeps_locked rfl fun _ => ?_
  refine releases_step rfl fun disk _ => ?_
  cases disk with
  | none =>
    obtain ⟨r,hr⟩ := hfail (-EINVAL) (by decide)
    refine releases_unlock rfl fun _ => ?_
    show ((p (-EINVAL)).expand _).Keeps _ _
    rw [hr]
    exact keeps_ret r
  | some disk =>
    refine releases_step rfl fun _ _ => ?_
    show Releases _ _ _ ((p 0).expand _)
    rw [hok]
    apply releases_step (x := SysAct.lfs x) (lfs_event hx)
    intro ret _
    exact releases_unlock rfl fun _ => keeps_ret _

theorem lfsFsCall_keeps (m : W.Mnt) (dno : UInt8) (req : FsReq) :
    (Sys.ofLfs (lfsFsCall m dno req) : SysProg W ff lf FsRet).Keeps (d.rules ff lf s)
      fun _ => True := by
  cases req with
  | format =>
    rw [lfsFsCall,ofLfs_map]
    apply Keeps.map
    exact prepare_keeps m dno (x := .format m) (fun _ => ⟨by simp,by simp⟩)
      (fun res hres => ⟨_,if_pos hres⟩) rfl
  | mount =>
    rw [lfsFsCall,ofLfs_map]
    apply Keeps.map
    exact prepare_keeps m dno (x := .mount m) (fun _ => ⟨by simp,by simp⟩)
      (fun res hres => ⟨_,if_pos hres⟩) rfl
  | umount =>
    rw [lfsFsCall,ofLfs_map]
    exact (lockedCall_keeps m (fun _ => ⟨by simp,by simp⟩) _).map _
  | rename fromPath toPath =>
    rw [lfsFsCall,ofLfs_map]
    exact (lockedCall_keeps m (fun _ => ⟨by simp,by simp⟩) _).map _
  | unlink name =>
    rw [lfsFsCall,ofLfs_map]
    exact (lockedCall_keeps m (fun _ => ⟨by simp,by simp⟩) _).map _
  | mkdir name mode =>
    rw [lfsFsCall,ofLfs_map]
    exact (lockedCall_keeps m (fun _ => ⟨by simp,by simp⟩) _).map _
  | rmdir name =>
    rw [lfsFsCall,ofLfs_map]
    exact (lockedCall_keeps m (fun _ => ⟨by simp,by simp⟩) _).map _
  | stat path =>
    rw [lfsFsCall,ofLfs_map]
    apply Keeps.map
    rw [Littlefs.Driver.stat,Sys.ofLfs,expand_bind]
    apply (locked_keeps m _).bind
    · intro r
      exact keeps_ret _
    · refine ⟨fun _ => ⟨by simp,by simp⟩,fun info => ?_⟩
      exact onlyLfs fun _ => ⟨by simp,by simp⟩

/-- `_open` gives the mutex back with and without a block. -/
theorem lfsOpen_keeps (m : W.Mnt) (fp : lf.File) (name : CStr) (flags : Nat) :
    (Sys.ofLfs (Littlefs.Driver.open_ m fp name flags) : SysProg W ff lf _).Keeps (d.rules ff lf s)
      fun _ => True := by
  refine keeps_locked rfl fun _ => ?_
  refine releases_step rfl fun buffer _ => ?_
  cases buffer with
  | none => exact releases_unlock rfl fun _ => keeps_ret _
  | some buffer =>
    refine releases_step rfl fun r _ => ?_
    exact releases_unlock rfl fun _ => keeps_ret _

theorem lfsFileCall_keeps (m : W.Mnt) (fp : lf.File) (req : FileReq)
    (p : LfsProg lf (FileRet × lf.File)) (hp : lfsFileCall m fp req = some p) :
    (Sys.ofLfs p : SysProg W ff lf _).Keeps (d.rules ff lf s) fun _ => True := by
  cases req with
  | open_ name flags mode =>
    obtain rfl := Option.some.inj hp
    rw [ofLfs_map]
    exact (lfsOpen_keeps m fp name flags).map _
  | close =>
    obtain rfl := Option.some.inj hp
    rw [ofLfs_map,Littlefs.Driver.close,ofLfs_map]
    apply Keeps.map
    apply Keeps.map
    apply locked_keeps
    refine ⟨fun _ => ⟨by simp,by simp⟩,fun r => ?_⟩
    exact ⟨fun _ => ⟨by simp,by simp⟩,fun _ => ⟨fun _ => ⟨by simp,by simp⟩,fun _ => trivial⟩⟩
  | fstat => exact nomatch hp
  | lseek off whence =>
    obtain rfl := Option.some.inj hp
    rw [ofLfs_map]
    exact (lockedCall_keeps m (fun _ => ⟨by simp,by simp⟩) _).map _
  | read nbytes =>
    obtain rfl := Option.some.inj hp
    rw [ofLfs_map]
    exact (lockedCall_keeps m (fun _ => ⟨by simp,by simp⟩) _).map _
  | write src =>
    obtain rfl := Option.some.inj hp
    rw [ofLfs_map]
    exact (lockedCall_keeps m (fun _ => ⟨by simp,by simp⟩) _).map _
  | fsync =>
    obtain rfl := Option.some.inj hp
    rw [ofLfs_map]
    exact (lockedCall_keeps m (fun _ => ⟨by simp,by simp⟩) _).map _

theorem lfsDirCall_keeps (m : W.Mnt) (dir : lf.Dir) (req : DirReq) :
    (Sys.ofLfs (lfsDirCall m dir req) : SysProg W ff lf _).Keeps (d.rules ff lf s)
      fun _ => True := by
  cases req with
  | opendir dirname =>
    rw [lfsDirCall,ofLfs_map]
    exact (lockedCall_keeps m (fun _ => ⟨by simp,by simp⟩) _).map _
  | readdir entry =>
    rw [lfsDirCall,ofLfs_map,Littlefs.Driver.readdir,ofLfs_map]
    apply Keeps.map
    apply Keeps.map
    apply locked_keeps
    refine ⟨fun _ => ⟨by simp,by simp⟩,fun info => ⟨fun _ => ⟨by simp,by simp⟩,fun r => ?_⟩⟩
    show Only _ (if r.1.1 ≥ 0 then _ else _)
    split <;> trivial
  | closedir =>
    rw [lfsDirCall,ofLfs_map]
    exact (lockedCall_keeps m (fun _ => ⟨by simp,by simp⟩) _).map _

/-- Formatting a FAT volume gives `work_mtx` back when there is such a disk. -/
theorem fatFormat_keeps (m : W.Mnt) (hdisk : (ramdiskOpen (d.dno m).toNat).isSome) :
    (Sys.ofFat (Fatfs.format m) : SysProg W ff lf Int).Keeps (d.rules ff lf s) fun _ => True := by
  refine keeps_locked rfl fun _ => ?_
  refine releases_step rfl fun found hfound => ?_
  have htrue : found = true := hfound.trans hdisk
  subst htrue
  refine releases_step rfl fun fsDesc _ => ?_
  refine releases_step rfl fun res _ => ?_
  exact releases_unlock rfl fun _ => keeps_ret _

/-- And keeps it when there is none. -/
theorem fatFormat_held (m : W.Mnt) (hdisk : (ramdiskOpen (d.dno m).toNat).isSome = false)
    {h : SysMutex W → ℕ} {Q : (SysMutex W → ℕ) → Int → Prop}
    (hobeys : (Sys.ofFat (Fatfs.format m) : SysProg W ff lf Int).Obeys (d.rules ff lf s) Q h) :
    Q (Function.update h .work (h .work + 1)) (-EINVAL) := by
  obtain ⟨_,hlocked⟩ := hobeys
  obtain ⟨_,hopened⟩ := hlocked () trivial
  exact hopened false hdisk.symm

/-- The call formats a FAT volume on a disk that there is not. -/
def Drivers.MissingDisk (d : Drivers W) (m : W.Mnt) : Prop :=
  d.kind m = .fatfs ∧ (ramdiskOpen (d.dno m).toNat).isSome = false

theorem fsCall_keeps (m : W.Mnt) {req : FsReq} (hreq : req = .format → ¬d.MissingDisk m) :
    (Sys.fsCall d m req : SysProg W ff lf FsRet).Keeps (d.rules ff lf s) fun _ => True := by
  unfold Sys.fsCall
  cases hkind : d.kind m with
  | fatfs =>
    by_cases hformat : req = .format
    · subst hformat
      have hdisk : (ramdiskOpen (d.dno m).toNat).isSome :=
        Bool.eq_true_of_not_eq_false fun hno => hreq rfl ⟨hkind,hno⟩
      dsimp only [fatFsCall]
      rw [ofFat_map]
      exact (fatFormat_keeps m hdisk).map _
    · exact ofFat_keeps (fatFsCall_noWork m hformat)
  | littlefs => exact lfsFsCall_keeps m (d.dno m) req
  | other => exact keeps_none rfl

theorem crash_keeps {P : (SysMutex W → ℕ) → Prop} :
    (Sys.crash : SysProg W ff lf ρ).Keeps (d.rules ff lf s) P :=
  fun _ _ => ⟨trivial,fun r => nomatch r⟩

theorem fileCall_keeps (fd : Fd) (req : FileReq) :
    (Sys.fileCall d fd req : SysProg W ff lf FileRet).Keeps (d.rules ff lf s) fun _ => True := by
  apply (keeps_none rfl).bind
  intro e
  cases e.mp with
  | none => exact crash_keeps
  | some m =>
    dsimp only
    cases d.kind m with
    | fatfs =>
      apply (keeps_none rfl).bind
      intro file
      apply (ofFat_keeps (fatFileCall_noWork m file req)).bind
      intro r
      exact (keeps_none rfl).bind fun _ => keeps_ret _
    | littlefs =>
      apply (keeps_none rfl).bind
      intro file
      cases hp : lfsFileCall m file req with
      | none => exact crash_keeps
      | some p =>
        apply (lfsFileCall_keeps m file req p hp).bind
        intro r
        exact (keeps_none rfl).bind fun _ => keeps_ret _
    | other => exact keeps_none rfl

theorem dirCall_keeps (dirp : W.Dir) (req : DirReq) :
    (Sys.dirCall d dirp req : SysProg W ff lf DirRet).Keeps (d.rules ff lf s) fun _ => True := by
  apply (keeps_none rfl).bind
  intro o
  cases o.mp with
  | none => exact crash_keeps
  | some m =>
    dsimp only
    cases d.kind m with
    | fatfs =>
      apply (keeps_none rfl).bind
      intro dir
      apply (ofFat_keeps (fatDirCall_noWork m dir req)).bind
      intro r
      exact (keeps_none rfl).bind fun _ => keeps_ret _
    | littlefs =>
      apply (keeps_none rfl).bind
      intro dir
      apply (lfsDirCall_keeps m dir req).bind
      intro r
      exact (keeps_none rfl).bind fun _ => keeps_ret _
    | other => exact keeps_none rfl

/-! The regions of `vfs.c`. -/

abbrev ReleasesMount (d : Drivers W) (s : State W) (p : SysProg W ff lf ρ) : Prop :=
  Releases SysAct.event (d.Answers s) (.vfs .mount) p

theorem unlockMount_releases (r : ρ) :
    ReleasesMount d s (Sys.ofFine d (Fine.act (.unlock .mount) >>= fun _ => pure r) :
      SysProg W ff lf ρ) :=
  releases_unlock rfl fun _ => keeps_ret r

theorem ofFine_bind {τ : Type} (p : Fine.FProg W ρ) (f : ρ → Fine.FProg W τ) :
    (Sys.ofFine d (p >>= f) : SysProg W ff lf τ) =
      Sys.ofFine d p >>= fun r => Sys.ofFine d (f r) :=
  expand_bind _ p f

theorem fineCrash_keeps {P : (SysMutex W → ℕ) → Prop} :
    (Sys.ofFine d Fine.crash : SysProg W ff lf ρ).Keeps (d.rules ff lf s) P :=
  fun _ _ => ⟨trivial,fun r => nomatch r⟩

theorem mountFs_keeps {P : (SysMutex W → ℕ) → Prop} (m : W.Mnt) :
    (Sys.ofFine d (Fine.mountFs m) : SysProg W ff lf _).Keeps (d.rules ff lf s) P := by
  rw [Fine.mountFs,ofFine_bind]
  apply Keeps.bind
  · exact keeps_none rfl
  · intro o
    cases o.fs with
    | none => exact fineCrash_keeps
    | some fs => exact keeps_ret fs

theorem callFs_keeps (fs : FileSystem W) (m : W.Mnt) {req : FsReq} (hreq : req ≠ .format) :
    (Sys.ofFine d (Fine.callFs fs m req) : SysProg W ff lf _).Keeps (d.rules ff lf s)
      fun _ => True := by
  unfold Fine.callFs
  cases fs.fsCallback req with
  | none => exact keeps_ret _
  | some _ =>
    dsimp only
    rw [ofFine_bind]
    apply Keeps.bind
    · show (Sys.fsCall d m req >>= Prog.ret).Keeps _ _
      exact (fsCall_keeps m fun h => absurd h hreq).bind fun r => keeps_ret r
    · exact fun ans => keeps_ret _

/-- `check_mount` returns with the mutex when the result is 0. -/
theorem checkMount_obeys {mountp : Option W.Mnt} {f : Int → Fine.FProg W ρ}
    (herr : ∀ r : Int,r < 0 → ∃ r',f r = pure r')
    (hok : ReleasesMount d s (Sys.ofFine d (f 0) : SysProg W ff lf ρ)) :
    (Sys.ofFine d (Fine.checkMount mountp >>= f) : SysProg W ff lf ρ).Keeps (d.rules ff lf s)
      fun _ => True := by
  have hfail (r : Int) (hr : r < 0) : (Sys.ofFine d (f r) : SysProg W ff lf ρ).Keeps (d.rules ff lf s)
      fun _ => True := by
    obtain ⟨r',hr'⟩ := herr r hr
    rw [hr']
    exact keeps_ret r'
  unfold Fine.checkMount
  cases mountp with
  | none => exact hfail (-EINVAL) (by decide)
  | some m =>
    dsimp only
    rw [bind_assoc_eq,ofFine_bind]
    apply (keeps_none rfl).bind
    intro o
    cases o.fs with
    | none => exact hfail (-EINVAL) (by decide)
    | some fs =>
      cases o.mountPoint with
      | none => exact hfail (-EINVAL) (by decide)
      | some p =>
        dsimp only
        by_cases hslash : p.at_ 0 ≠ '/'
        · rw [if_pos hslash]
          exact hfail (-EINVAL) (by decide)
        · rw [if_neg hslash,bind_assoc_eq,ofFine_bind]
          apply (keeps_none rfl).bind
          intro _
          refine keeps_locked rfl fun _ => ?_
          refine releases_guarded rfl fun found => ?_
          cases found with
          | none => exact hok
          | some node => exact releases_unlock rfl fun _ => hfail (-EBUSY) (by decide)

theorem vfsMount_keeps (mountp : Option W.Mnt) :
    (Sys.ofFine d (Fine.vfsMount mountp) : SysProg W ff lf Int).Keeps (d.rules ff lf s)
      fun _ => True := by
  apply checkMount_obeys
  · exact fun r hr => ⟨r,if_pos hr⟩
  · rw [if_neg (lt_irrefl 0)]
    cases mountp with
    | none => exact fun _ => ⟨trivial,fun r => nomatch r⟩
    | some m =>
      dsimp only
      rw [ofFine_bind]
      apply releases_bind (mountFs_keeps m)
      intro fs
      rw [ofFine_bind]
      apply releases_bind ((callFs_keeps fs m (by simp)).mono fun _ _ => trivial)
      intro res
      by_cases hres : res < 0
      · rw [if_pos hres]
        exact unlockMount_releases res
      · rw [if_neg hres,ofFine_bind]
        exact releases_guarded rfl fun _ => unlockMount_releases 0

theorem vfsFormatCheck_keeps (mountp : Option W.Mnt) :
    (Sys.ofFine d (Fine.vfsFormatCheck mountp) : SysProg W ff lf Int).Keeps (d.rules ff lf s)
      fun _ => True := by
  apply checkMount_obeys
  · exact fun r hr => ⟨r,if_pos hr⟩
  · rw [if_neg (lt_irrefl 0)]
    exact unlockMount_releases 0

theorem vfsUmountCheck_keeps (mountp : Option W.Mnt) :
    (Sys.ofFine d (Fine.vfsUmountCheck mountp) : SysProg W ff lf Int).Keeps (d.rules ff lf s)
      fun _ => True := by
  apply checkMount_obeys
  · exact fun r hr => ⟨r,if_neg (ne_of_lt hr)⟩
  · rw [if_pos rfl]
    exact unlockMount_releases 0

theorem vfsUmount_keeps (m : W.Mnt) (force : Bool) :
    (Sys.ofFine d (Fine.vfsUmount m force) : SysProg W ff lf Int).Keeps (d.rules ff lf s)
      fun _ => True := by
  unfold Fine.vfsUmount
  rw [ofFine_bind]
  refine keeps_locked rfl fun _ => ?_
  rw [ofFine_bind]
  refine releases_step rfl fun o _ => ?_
  by_cases hbusy : o.openFiles > 0 ∧ ¬force
  · rw [if_pos hbusy]
    exact unlockMount_releases _
  · rw [if_neg hbusy,ofFine_bind]
    apply releases_bind (mountFs_keeps m)
    intro fs
    rw [ofFine_bind]
    apply releases_bind ((callFs_keeps fs m (by simp)).mono fun _ _ => trivial)
    intro res
    by_cases hres : res < 0
    · rw [if_pos hres]
      exact unlockMount_releases res
    · rw [if_neg hres,ofFine_bind]
      refine releases_guarded rfl fun node => ?_
      cases node with
      | none => exact unlockMount_releases _
      | some node => exact unlockMount_releases _

theorem findMount_keeps (name : CStr) :
    (Sys.ofFine d (Fine.findMount name) : SysProg W ff lf _).Keeps (d.rules ff lf s)
      fun _ => True := by
  unfold Fine.findMount
  rw [ofFine_bind]
  refine keeps_locked rfl fun _ => ?_
  rw [ofFine_bind]
  refine releases_guarded rfl fun head => ?_
  cases head with
  | none => exact unlockMount_releases _
  | some last =>
    dsimp only
    rw [ofFine_bind]
    refine releases_guarded rfl fun acc => ?_
    cases acc.mountp with
    | none => exact unlockMount_releases _
    | some m => exact releases_step rfl fun _ _ => unlockMount_releases _

theorem vfsOpen_keeps (fOp : Option (FileOps W)) (mountp : W.Mnt) (flags : Nat) :
    (Sys.ofFine d (Fine.vfsOpen fOp mountp flags) : SysProg W ff lf _).Keeps (d.rules ff lf s)
      fun _ => True := by
  refine keeps_locked rfl fun _ => ?_
  refine releases_step rfl fun fd _ => ?_
  exact releases_unlock rfl fun _ => keeps_ret fd

theorem action_keeps (x : Action W) (hx : ∀ m,x = .fsCall m .format → ¬d.MissingDisk m) :
    (Sys.ofFine d x.fine : SysProg W ff lf x.Resp).Keeps (d.rules ff lf s) fun _ => True := by
  cases x with
  | findMount name => exact findMount_keeps name
  | mount mountp => exact vfsMount_keeps mountp
  | formatCheck mountp => exact vfsFormatCheck_keeps mountp
  | umountCheck mountp => exact vfsUmountCheck_keeps mountp
  | umount m force => exact vfsUmount_keeps m force
  | initFd fOp mountp flags => exact vfsOpen_keeps fOp mountp flags
  | fsCall m req =>
    apply Keeps.bind (fsCall_keeps m fun hreq => hx m (by rw [hreq]))
    exact fun r => keeps_ret r
  | fileCall fd req => exact (fileCall_keeps fd req).bind fun r => keeps_ret r
  | dirCall dirp req => exact (dirCall_keeps dirp req).bind fun r => keeps_ret r
  | _ => exact keeps_none rfl

end Keeps

/-- `check_mount` accepts the object: a file system, an absolute mount point, and not in the
list. -/
def State.Accepts (s : State W) (m : W.Mnt) : Prop :=
  (s.mounts m).accepted.isSome ∧ ¬s.Mounted m

section Missing

variable {d : Drivers W} {s : State W} {m : W.Mnt} {h : SysMutex W → ℕ}

/-- `check_mount` returns with the mutex when it accepts the object, and without it otherwise. -/
theorem checkMount_accepts (m : W.Mnt) (h : SysMutex W → ℕ) :
    (Sys.ofFine d (Fine.checkMount (some m)) : SysProg W ff lf Int).Obeys (d.rules ff lf s)
      (fun h' r => (r < 0 ∧ h' = h) ∨ r = 0 ∧ s.Accepts m ∧
        h' = Function.update h (.vfs .mount) (h (.vfs .mount) + 1)) h := by
  have hinval : (-EINVAL : Int) < 0 := by decide
  unfold Fine.checkMount
  dsimp only
  rw [ofFine_bind]
  refine obeys_step rfl fun o ho => ?_
  obtain ⟨hfs,hpoint⟩ : o.fs = (s.mounts m).fs ∧ o.mountPoint = (s.mounts m).mountPoint := ho
  cases hofs : o.fs with
  | none => exact Or.inl ⟨hinval,rfl⟩
  | some fs =>
    cases hop : o.mountPoint with
    | none => exact Or.inl ⟨hinval,rfl⟩
    | some p =>
      dsimp only
      by_cases hslash : p.at_ 0 ≠ '/'
      · rw [if_pos hslash]
        exact Or.inl ⟨hinval,rfl⟩
      · rw [if_neg hslash,ofFine_bind]
        refine obeys_step rfl fun _ _ => ?_
        refine ⟨trivial,fun _ _ => ⟨?_,fun found hfound => ?_⟩⟩
        · show 0 < Function.update h (.vfs .mount) (h (.vfs .mount) + 1) (.vfs .mount)
          simp
        · have hlisted : found.isSome = decide (s.Mounted m) := hfound
          cases found with
          | none =>
            have hacc : (s.mounts m).accepted = some p := Mount.accepted_eq_some.mpr
              ⟨by rw [← hfs,hofs]; rfl,by rw [← hpoint,hop],by simpa using hslash⟩
            exact Or.inr ⟨rfl,⟨by rw [hacc]; rfl,of_decide_eq_false hlisted.symm⟩,rfl⟩
          | some node =>
            refine ⟨?_,fun _ _ => Or.inl ⟨show -EBUSY < 0 by decide,?_⟩⟩
            · show 0 < Function.update h (.vfs .mount) (h (.vfs .mount) + 1) (.vfs .mount)
              simp
            · exact LockEvent.unlock_after_lock h _

/-- The check of `vfs_format` keeps the locks, and it passes only what `check_mount` accepts. -/
theorem formatCheck_obeys (m : W.Mnt) (h : SysMutex W → ℕ) :
    (Sys.ofFine d (Fine.vfsFormatCheck (some m)) : SysProg W ff lf Int).Obeys (d.rules ff lf s)
      (fun h' r => h' = h ∧ (r < 0 ∨ r = 0 ∧ s.Accepts m)) h := by
  rw [Fine.vfsFormatCheck,ofFine_bind]
  apply Obeys.bind
  apply (checkMount_accepts m h).mono
  rintro h' r (⟨hr,rfl⟩ | ⟨rfl,hacc,rfl⟩)
  · rw [if_pos hr]
    exact ⟨rfl,Or.inl hr⟩
  · rw [if_neg (lt_irrefl 0)]
    refine ⟨?_,fun _ _ => ⟨LockEvent.unlock_after_lock h _,Or.inr ⟨rfl,hacc⟩⟩⟩
    show 0 < Function.update h (.vfs .mount) (h (.vfs .mount) + 1) (.vfs .mount)
    simp

/-- A mount object that `check_mount` accepts passes the check. -/
theorem formatCheck_passes {Q : (SysMutex W → ℕ) → Int → Prop} (haccepts : s.Accepts m)
    (hobeys : (Sys.ofFine d (Fine.vfsFormatCheck (some m)) : SysProg W ff lf Int).Obeys
      (d.rules ff lf s) Q h) : Q h 0 := by
  obtain ⟨hacc,hlisted⟩ := haccepts
  obtain ⟨p,hp⟩ := Option.isSome_iff_exists.mp hacc
  obtain ⟨hfs,hpoint,hslash⟩ := Mount.accepted_eq_some.mp hp
  obtain ⟨fs,hfs⟩ := Option.isSome_iff_exists.mp hfs
  have hslash' : ¬p.at_ 0 ≠ '/' := by simpa using hslash
  rw [Fine.vfsFormatCheck,ofFine_bind] at hobeys
  have hcheck := hobeys.of_bind
  rw [Fine.checkMount] at hcheck
  rw [ofFine_bind] at hcheck
  have hobj := obeys_of_step (x := SysAct.fine (.mountObj m)) rfl hcheck
    (r := ⟨some fs,some p,0,0⟩) ⟨hfs.symm,hpoint.symm⟩
  dsimp only at hobj
  rw [if_neg hslash',ofFine_bind] at hobj
  obtain ⟨_,hlock⟩ := obeys_of_step (x := SysAct.fine (.setLen m p.length)) rfl hobj
    (r := ()) trivial
  obtain ⟨_,hfind⟩ := hlock () trivial
  obtain ⟨_,hunlock⟩ := hfind none (decide_eq_false hlisted).symm
  have hend : Q ((LockEvent.unlock (SysMutex.vfs .mount)).after
      (Function.update h (.vfs .mount) (h (.vfs .mount) + 1))) 0 := hunlock () trivial
  rwa [LockEvent.unlock_after_lock] at hend

/-- Such a call can return with `work_mtx`. -/
theorem format_held (haccepts : s.Accepts m) {fs : FileSystem W} (hfs : (s.mounts m).fs = some fs)
    (hformat : (fs.fsCallback .format).isSome) (hmissing : d.MissingDisk m) :
    ¬((Op.format (some m)).system ff lf d).Keeps (d.rules ff lf s) fun _ => True := by
  intro hkeeps
  have hprog := (hkeeps (fun _ => 0) trivial).of_bind
  obtain ⟨_,hread⟩ := formatCheck_passes haccepts hprog
  have hcall := hread (some fs) hfs.symm
  obtain ⟨callback,hcallback⟩ := Option.isSome_iff_exists.mp hformat
  simp only [Prog.bind,expand,pure_eq,hcallback] at hcall
  change ((Sys.fsCall d m .format >>= fun r => Prog.ret r) >>= _ : SysProg W ff lf Int).Obeys _ _ _
    at hcall
  have hdrive := hcall.of_bind.of_bind
  rw [Sys.fsCall,hmissing.1] at hdrive
  dsimp only [fatFsCall] at hdrive
  rw [ofFat_map] at hdrive
  have hend := fatFormat_held m hmissing.2 hdrive.of_bind
  have hwork := congrFun hend .work
  simp at hwork

/-- A call that does not reach the driver keeps its locks. -/
theorem format_refused (hno : ¬(s.Accepts m ∧
    ((s.mounts m).fs.bind (·.fsCallback .format)).isSome)) :
    ((Op.format (some m)).system ff lf d).Keeps (d.rules ff lf s) fun _ => True := by
  intro h _
  change ((Sys.ofFine d (Fine.vfsFormatCheck (some m)) : SysProg W ff lf Int) >>= _).Obeys _ _ _
  apply Obeys.bind
  apply (formatCheck_obeys m h).mono
  rintro h' r ⟨rfl,hr⟩
  rcases hr with hneg | ⟨rfl,haccepts⟩
  · change Obeys _ _ _ (expand (fun x : Action W => Sys.ofFine d x.fine)
      (if r < 0 then (pure r : VProg W Int) else _))
    rw [if_pos hneg]
    exact rfl
  · refine ⟨trivial,fun fs hfs => ?_⟩
    obtain rfl : fs = (s.mounts m).fs := hfs
    cases hfs : (s.mounts m).fs with
    | none => exact ⟨trivial,fun r => nomatch r⟩
    | some fs =>
      have hnone : fs.fsCallback .format = none := by
        by_contra hsome
        refine hno ⟨haccepts,?_⟩
        rw [hfs,Option.bind_some]
        exact Option.isSome_iff_ne_none.mpr hsome
      simp only [Prog.bind,expand,pure_eq,hnone]
      exact rfl

end Missing

/-- A call formats a FAT volume that `check_mount` accepts on a disk that there is not. -/
def Drivers.FormatsMissingDisk (d : Drivers W) (s : State W) (op : Op W) : Prop :=
  ∃ m,op = .format (some m) ∧ s.Accepts m ∧
    ((s.mounts m).fs.bind (·.fsCallback .format)).isSome ∧ d.MissingDisk m

/-- In every state, a call returns with the locks that the task had, gives none back that it did
not have and keeps off the list without its mutex, whatever the drivers answer, exactly when it
does not format such a volume. -/
theorem locks_given_back (d : Drivers W) (s : State W) (op : Op W) :
    ((op.system ff lf d).Keeps (d.rules ff lf s) fun _ => True) ↔ ¬d.FormatsMissingDisk s op := by
  constructor
  · rintro hkeeps ⟨m,rfl,haccepts,hformat,hmissing⟩
    obtain ⟨fs,hfs⟩ := Option.isSome_iff_exists.mp (Option.isSome_of_isSome_bind hformat)
    rw [hfs,Option.bind_some] at hformat
    exact format_held haccepts hfs hformat hmissing hkeeps
  · intro hno
    by_cases hrefused : ∃ m,op = .format (some m) ∧ ¬(s.Accepts m ∧
        ((s.mounts m).fs.bind (·.fsCallback .format)).isSome)
    · obtain ⟨m,rfl,hm⟩ := hrefused
      exact format_refused hm
    · have honly : op.prog.Only fun x => ∀ m,x = .fsCall m .format → ¬d.MissingDisk m := by
        apply op.prog_only
        · exact fun x hx m he => absurd he (hx m .format)
        · intro m req hreq m' he hmissing
          obtain ⟨rfl,rfl⟩ := Action.fsCall.inj he
          cases op with
          | format mountp =>
            obtain rfl : mountp = some m := hreq.1
            have hreached := not_not.mp fun h => hrefused ⟨m,rfl,h⟩
            exact hno ⟨m,rfl,hreached.1,hreached.2,hmissing⟩
          | _ => exact hreq
      exact honly.keeps_expand action_keeps

/-- FAT volumes on disk 2. -/
def thirdDisk : Drivers demo := ⟨fun _ => .fatfs,fun _ => 2⟩

def thirdDiskState : FatState ((dirCore followPlain).fatFs demo.Mnt) where
  descs _ := ⟨2,0,List.replicate FATFS_MAX_ABS_PATH_SIZE nul⟩
  workMtx := 0
  sys := ⟨none,fun _ => none,none,0,fun _ => ⟨none,0,()⟩⟩
  calls := []

/-- `vfs_format` of an accepted mount object on disk 2 fails with the mutex in the hands of its
caller. -/
theorem work_mtx_held : (demoState none).Accepts demoMnt ∧
    ¬((Op.format (some demoMnt)).system ((dirCore followPlain).fatFs demo.Mnt)
        (brokenLfs demo.Mnt) thirdDisk).Keeps (thirdDisk.rules _ _ (demoState none))
          (fun _ => True) ∧
      ((Fatfs.format demoMnt).run FatAct.exec thirdDiskState).map
        (fun v => (v.1,v.2.workMtx)) = some (-EINVAL,1) := by
  have haccepts : (demoState none).Accepts demoMnt := ⟨by decide,by decide⟩
  refine ⟨haccepts,?_,?_⟩
  · have hfs : ((demoState none).mounts demoMnt).fs = some (demoFs none) := rfl
    exact format_held haccepts hfs (by decide) ⟨rfl,by decide⟩
  · decide

end UcVfs
