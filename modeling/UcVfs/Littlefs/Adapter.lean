import UcVfs.Framework.Program
import UcVfs.Littlefs.Device
import UcVfs.Littlefs.Open

/-!
# The littlefs adapter

The driver functions of `littlefs_vfs.c` as programs over the mutex of a descriptor, the pool
of cache blocks and the functions of `lfs.h`, which are a parameter here.
-/

namespace UcVfs

open Framework

/-- `struct lfs_info`. -/
structure LfsInfo where
  type : UInt8
  size : UInt32
  name : List Char
  deriving DecidableEq

def LFS_TYPE_REG : UInt8 := 1
def LFS_TYPE_DIR : UInt8 := 2

/-- littlefs with the disks behind it and the pool of cache blocks: file and directory objects,
everything else as one state, and the functions. A mount object names its `lfs_t`; a file or
directory object is passed in and handed back. -/
structure LittleFs (Mnt : Type) where
  File : Type
  Dir : Type
  Block : Type
  σ : Type
  /-- `mem_pool_alloc` of `cache_pool`. -/
  cacheAlloc : σ → Option Block × σ
  cacheFree : Option Block → σ → σ
  /-- `fp->cfg->buffer`. -/
  cfgBuffer : File → σ → Option Block
  format : Mnt → Littlefs.Config → σ → Int × σ
  mount : Mnt → Littlefs.Config → σ → Int × σ
  unmount : Mnt → σ → Int × σ
  remove : Mnt → CStr → σ → Int × σ
  rename : Mnt → CStr → CStr → σ → Int × σ
  mkdir : Mnt → CStr → σ → Int × σ
  fileOpencfg : Mnt → File → CStr → Nat → Block → σ → (Int × File) × σ
  fileClose : Mnt → File → σ → (Int × File) × σ
  fileRead : Mnt → File → Nat → σ → ((Int × List UInt8) × File) × σ
  fileWrite : Mnt → File → List UInt8 → σ → (Int × File) × σ
  fileSeek : Mnt → File → Int → Int → σ → (Int × File) × σ
  fileSync : Mnt → File → σ → (Int × File) × σ
  /-- The record is as it was where the function does not fill it in. -/
  stat : Mnt → CStr → LfsInfo → σ → (Int × LfsInfo) × σ
  dirOpen : Mnt → Dir → CStr → σ → (Int × Dir) × σ
  dirRead : Mnt → Dir → LfsInfo → σ → ((Int × LfsInfo) × Dir) × σ
  dirClose : Mnt → Dir → σ → (Int × Dir) × σ

variable {Mnt : Type} (lf : LittleFs Mnt)

/-- The descriptors of the mounts, littlefs, and what an uninitialised record on the stack
reads. -/
structure LfsState where
  descs : Mnt → Littlefs.Desc
  sys : lf.σ
  stackInfo : LfsInfo

inductive LfsAct
  | lock (m : Mnt)
  | unlock (m : Mnt)
  | openDisk (dno : UInt8)
  | setUp (m : Mnt) (disk : Fin 2)
  | cacheAlloc
  | cacheFree (blk : Option lf.Block)
  | cfgBuffer (fp : lf.File)
  | stackInfo
  | format (m : Mnt)
  | mount (m : Mnt)
  | unmount (m : Mnt)
  | remove (m : Mnt) (name : CStr)
  | rename (m : Mnt) (fromPath toPath : CStr)
  | mkdir (m : Mnt) (name : CStr)
  | fileOpencfg (m : Mnt) (fp : lf.File) (name : CStr) (lFlags : Nat) (buffer : lf.Block)
  | fileClose (m : Mnt) (fp : lf.File)
  | fileRead (m : Mnt) (fp : lf.File) (nbytes : Nat)
  | fileWrite (m : Mnt) (fp : lf.File) (src : List UInt8)
  | fileSeek (m : Mnt) (fp : lf.File) (off whence : Int)
  | fileSync (m : Mnt) (fp : lf.File)
  | stat (m : Mnt) (path : CStr) (info : LfsInfo)
  | dirOpen (m : Mnt) (dir : lf.Dir) (dirname : CStr)
  | dirRead (m : Mnt) (dir : lf.Dir) (info : LfsInfo)
  | dirClose (m : Mnt) (dir : lf.Dir)

variable {lf}

abbrev LfsAct.Resp : LfsAct lf → Type
  | lock _ | unlock _ | setUp _ _ | cacheFree _ => Unit
  | openDisk _ => Option (Fin 2)
  | cacheAlloc | cfgBuffer _ => Option lf.Block
  | stackInfo => LfsInfo
  | format _ | mount _ | unmount _ | remove _ _ | rename _ _ _ | mkdir _ _ => Int
  | fileOpencfg _ _ _ _ _ | fileClose _ _ | fileWrite _ _ _ | fileSeek _ _ _ _ | fileSync _ _ =>
    Int × lf.File
  | fileRead _ _ _ => (Int × List UInt8) × lf.File
  | stat _ _ _ => Int × LfsInfo
  | dirOpen _ _ _ | dirClose _ _ => Int × lf.Dir
  | dirRead _ _ _ => (Int × LfsInfo) × lf.Dir

/-- littlefs returned. -/
def LfsState.returned {α : Type} (s : LfsState lf) (ans : α × lf.σ) : Option (α × LfsState lf) :=
  some (ans.1,{ s with sys := ans.2 })

section Exec

variable [DecidableEq Mnt]

def LfsState.setDesc (s : LfsState lf) (m : Mnt) (fs : Littlefs.Desc) : LfsState lf :=
  { s with descs := Function.update s.descs m fs }

/-- `none` is a mutex that is released but not held. -/
def LfsAct.exec : (x : LfsAct lf) → LfsState lf → Option (x.Resp × LfsState lf)
  | lock m,s => some ((),s.setDesc m { s.descs m with lock := (s.descs m).lock + 1 })
  | unlock m,s =>
    match (s.descs m).lock with
    | 0 => none
    | depth + 1 => some ((),s.setDesc m { s.descs m with lock := depth })
  | openDisk dno,s => some (ramdiskOpen dno.toNat,s)
  | setUp m disk,s => some ((),s.setDesc m ((s.descs m).prepared disk))
  | cacheAlloc,s => s.returned (lf.cacheAlloc s.sys)
  | cacheFree blk,s => s.returned ((),lf.cacheFree blk s.sys)
  | cfgBuffer fp,s => some (lf.cfgBuffer fp s.sys,s)
  | stackInfo,s => some (s.stackInfo,s)
  | format m,s => s.returned (lf.format m (s.descs m).config s.sys)
  | mount m,s => s.returned (lf.mount m (s.descs m).config s.sys)
  | unmount m,s => s.returned (lf.unmount m s.sys)
  | remove m name,s => s.returned (lf.remove m name s.sys)
  | rename m fromPath toPath,s => s.returned (lf.rename m fromPath toPath s.sys)
  | mkdir m name,s => s.returned (lf.mkdir m name s.sys)
  | fileOpencfg m fp name lFlags buffer,s =>
    s.returned (lf.fileOpencfg m fp name lFlags buffer s.sys)
  | fileClose m fp,s => s.returned (lf.fileClose m fp s.sys)
  | fileRead m fp nbytes,s => s.returned (lf.fileRead m fp nbytes s.sys)
  | fileWrite m fp src,s => s.returned (lf.fileWrite m fp src s.sys)
  | fileSeek m fp off whence,s => s.returned (lf.fileSeek m fp off whence s.sys)
  | fileSync m fp,s => s.returned (lf.fileSync m fp s.sys)
  | stat m path info,s => s.returned (lf.stat m path info s.sys)
  | dirOpen m dir dirname,s => s.returned (lf.dirOpen m dir dirname s.sys)
  | dirRead m dir info,s => s.returned (lf.dirRead m dir info s.sys)
  | dirClose m dir,s => s.returned (lf.dirClose m dir s.sys)

end Exec

abbrev LfsProg (lf : LittleFs Mnt) (ρ : Type) := Prog (@LfsAct.Resp Mnt lf) ρ

namespace Littlefs.Driver

abbrev act (x : LfsAct lf) : LfsProg lf x.Resp := Prog.act x

/-- Returns with the mutex held when it succeeds. -/
def prepare (m : Mnt) (dno : UInt8) : LfsProg lf Int := do
  act (.lock m)
  let disk ← act (.openDisk dno)
  match disk with
  | none =>
    act (.unlock m)
    pure (-EINVAL)
  | some disk =>
    act (.setUp m disk)
    pure 0

def format (mountp : Mnt) (dno : UInt8) : LfsProg lf Int := do
  let ret ← prepare mountp dno
  if ret ≠ 0 then
    pure (-ENODEV)
  else
    let ret ← act (.format mountp)
    act (.unlock mountp)
    pure (littlefsErrToErrno ret)

def mount (mountp : Mnt) (dno : UInt8) : LfsProg lf Int := do
  let ret ← prepare mountp dno
  if ret ≠ 0 then
    pure (-ENODEV)
  else
    let ret ← act (.mount mountp)
    act (.unlock mountp)
    pure (littlefsErrToErrno ret)

/-- What a driver function does under the mutex of the descriptor. -/
def locked {ρ : Type} (m : Mnt) (body : LfsProg lf ρ) : LfsProg lf ρ := do
  act (.lock m)
  let ret ← body
  act (.unlock m)
  pure ret

def umount (mountp : Mnt) : LfsProg lf Int :=
  littlefsErrToErrno <$> locked mountp (act (.unmount mountp))

def unlink (mountp : Mnt) (name : CStr) : LfsProg lf Int :=
  littlefsErrToErrno <$> locked mountp (act (.remove mountp name))

def rename (mountp : Mnt) (fromPath toPath : CStr) : LfsProg lf Int :=
  littlefsErrToErrno <$> locked mountp (act (.rename mountp fromPath toPath))

def mkdir (mountp : Mnt) (name : CStr) : LfsProg lf Int :=
  littlefsErrToErrno <$> locked mountp (act (.mkdir mountp name))

def rmdir (mountp : Mnt) (name : CStr) : LfsProg lf Int :=
  littlefsErrToErrno <$> locked mountp (act (.remove mountp name))

/-- The result of a function that hands its object back. -/
def errno {α : Type} (ans : Int × α) : Int × α := (littlefsErrToErrno ans.1,ans.2)

def open_ (mp : Mnt) (fp : lf.File) (name : CStr) (flags : Nat) : LfsProg lf (Int × lf.File) := do
  act (.lock mp)
  let lFlags := openFlags flags
  let buffer ← act .cacheAlloc
  match buffer with
  | none =>
    act (.unlock mp)
    pure (-ENOMEM,fp)
  | some buffer =>
    let (ret,fp) ← act (.fileOpencfg mp fp name lFlags buffer)
    act (.unlock mp)
    pure (littlefsErrToErrno ret,fp)

def close (mp : Mnt) (fp : lf.File) : LfsProg lf (Int × lf.File) :=
  errno <$> locked mp do
    let (ret,fp) ← act (.fileClose mp fp)
    let buffer ← act (.cfgBuffer fp)
    act (.cacheFree buffer)
    pure (ret,fp)

def write (mp : Mnt) (fp : lf.File) (src : List UInt8) : LfsProg lf (Int × lf.File) :=
  errno <$> locked mp (act (.fileWrite mp fp src))

/-- Returns the bytes that were stored as well. -/
def read (mp : Mnt) (fp : lf.File) (nbytes : Nat) :
    LfsProg lf ((Int × List UInt8) × lf.File) :=
  (fun ans => (errno ans.1,ans.2)) <$> locked mp (act (.fileRead mp fp nbytes))

def lseek (mp : Mnt) (fp : lf.File) (off whence : Int) : LfsProg lf (Int × lf.File) :=
  errno <$> locked mp (act (.fileSeek mp fp off whence))

def fsync (mp : Mnt) (fp : lf.File) : LfsProg lf (Int × lf.File) :=
  errno <$> locked mp (act (.fileSync mp fp))

/-- What `_stat` makes of a record, whatever the result was. -/
def statOf (info : LfsInfo) (buf : Stat) : Stat :=
  let buf := { buf with size := info.size.toNat }
  if info.type = LFS_TYPE_REG then { buf with mode := S_IFREG }
  else if info.type = LFS_TYPE_DIR then { buf with mode := S_IFDIR }
  else buf

def stat (mountp : Mnt) (path : CStr) (buf : Stat) : LfsProg lf (Int × Stat) := do
  let (ret,info) ← locked mountp do
    let info ← act .stackInfo
    act (.stat mountp path info)
  pure (littlefsErrToErrno ret,statOf info buf)

def opendir (mp : Mnt) (dir : lf.Dir) (dirname : CStr) : LfsProg lf (Int × lf.Dir) :=
  errno <$> locked mp (act (.dirOpen mp dir dirname))

/-- Returns what is left in `entry` as well. -/
def readdir (mp : Mnt) (dir : lf.Dir) (entry : Dirent) :
    LfsProg lf ((Int × Dirent) × lf.Dir) :=
  (fun ans => (errno ans.1,ans.2)) <$> locked mp do
    let info ← act .stackInfo
    let ((ret,info),dir) ← act (.dirRead mp dir info)
    if ret ≥ 0 then
      pure ((ret,⟨info.type.toNat,strncpy entry.name info.name (VFS_NAME_MAX - 1)⟩),dir)
    else
      pure ((ret,entry),dir)

def closedir (mp : Mnt) (dir : lf.Dir) : LfsProg lf (Int × lf.Dir) :=
  errno <$> locked mp (act (.dirClose mp dir))

variable [DecidableEq Mnt]

/-- With the mutex of a mount taken. -/
def held (s : LfsState lf) (m : Mnt) : LfsState lf :=
  s.setDesc m { s.descs m with lock := (s.descs m).lock + 1 }

/-- What a driver function changes when its body changes littlefs only. -/
theorem locked_run {ρ : Type} {m : Mnt} {body : LfsProg lf ρ} {s : LfsState lf} {r : ρ} {sys : lf.σ}
    (hbody : body.run LfsAct.exec (held s m) = some (r,{ held s m with sys := sys })) :
    (locked m body).run LfsAct.exec s = some (r,{ s with sys := sys }) := by
  have hlock : LfsAct.exec (.lock m) s = some ((),held s m) := rfl
  have hunlock : LfsAct.exec (.unlock m) { held s m with sys := sys } =
      some ((),{ s with sys := sys }) := by
    simp [LfsAct.exec,held,LfsState.setDesc]
  simp only [locked,Prog.act_bind,Prog.run_step hlock,Prog.run_bind hbody,Prog.run_step hunlock]
  rfl

/-- A function that makes one call. -/
theorem act_run {m : Mnt} {x : LfsAct lf} {s : LfsState lf} {r : x.Resp} {sys : lf.σ}
    (hexec : LfsAct.exec x (held s m) = some (r,{ held s m with sys := sys })) :
    (locked m (act x)).run LfsAct.exec s = some (r,{ s with sys := sys }) :=
  locked_run (Prog.run_step hexec)

end Littlefs.Driver

/-- A littlefs whose every call fails. -/
def brokenLfs (Mnt : Type) : LittleFs Mnt where
  File := Unit
  Dir := Unit
  Block := Unit
  σ := Unit
  cacheAlloc _ := (none,())
  cacheFree _ _ := ()
  cfgBuffer _ _ := none
  format _ _ _ := (Littlefs.LFS_ERR_IO,())
  mount _ _ _ := (Littlefs.LFS_ERR_IO,())
  unmount _ _ := (Littlefs.LFS_ERR_IO,())
  remove _ _ _ := (Littlefs.LFS_ERR_IO,())
  rename _ _ _ _ := (Littlefs.LFS_ERR_IO,())
  mkdir _ _ _ := (Littlefs.LFS_ERR_IO,())
  fileOpencfg _ _ _ _ _ _ := ((Littlefs.LFS_ERR_IO,()),())
  fileClose _ _ _ := ((Littlefs.LFS_ERR_IO,()),())
  fileRead _ _ _ _ := (((Littlefs.LFS_ERR_IO,[]),()),())
  fileWrite _ _ _ _ := ((Littlefs.LFS_ERR_IO,()),())
  fileSeek _ _ _ _ _ := ((Littlefs.LFS_ERR_IO,()),())
  fileSync _ _ _ := ((Littlefs.LFS_ERR_IO,()),())
  stat _ _ info _ := ((Littlefs.LFS_ERR_IO,info),())
  dirOpen _ _ _ _ := ((Littlefs.LFS_ERR_IO,()),())
  dirRead _ _ info _ := (((Littlefs.LFS_ERR_IO,info),()),())
  dirClose _ _ _ := ((Littlefs.LFS_ERR_IO,()),())

end UcVfs
