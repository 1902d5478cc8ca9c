import UcVfs.Fatfs.Api
import Mathlib.Logic.Function.Basic
import UcVfs.Devices.Ramdisk

/-!
# The single drive of FatFs

`ff.c` as it is configured: one logical drive, one table entry `FatFs[0]` for the record of
its volume, one mount counter `Fsid`, and behind it the one disk that `fat_disk` points to.
What a function does with a volume once it is mounted is a parameter.
-/

namespace UcVfs

inductive FatType
  | fat12
  | fat16
  | fat32
  deriving DecidableEq

/-- A result that is not `FR_OK`. -/
abbrev FatError := { r : FResult // r ≠ .ok }

/-- What is done with a mounted volume: its record and the disk, null if there is none, go in
and come out. -/
abbrev OnVolume (Disk Vol α : Type) := FatType → Vol → Option Disk → α × Vol × Option Disk

/-- The parts of the functions of `ff.c` behind `mount_volume` and `validate`. A record has
the members of `FATFS` but `fs_type` and `id`, an object those of `FIL` or `DIR` but `obj.fs`
and `obj.id`; `f_open` and `f_opendir` read nothing of the blank object. -/
structure FatCore where
  Disk : Type
  Vol : Type
  Obj : Type
  DirObj : Type
  zeroVol : Vol
  zeroObj : Obj
  zeroDirObj : DirObj
  /-- `mount_volume` on a volume that is not mounted yet. -/
  analyze : Vol → Option Disk → Except FatError FatType × Vol × Option Disk
  mkfs : Option Disk → FResult × Option Disk
  open_ : List Char → Nat → OnVolume Disk Vol (FResult × Obj)
  read : Nat → Obj → OnVolume Disk Vol ((FResult × List UInt8) × Obj)
  write : List UInt8 → Obj → OnVolume Disk Vol ((FResult × Nat) × Obj)
  sync : Obj → OnVolume Disk Vol (FResult × Obj)
  lseek : Nat → Obj → OnVolume Disk Vol (FResult × Obj)
  tell : Obj → Nat
  size : Obj → Nat
  stat : List Char → OnVolume Disk Vol (FResult × FilInfo)
  unlink : List Char → OnVolume Disk Vol FResult
  rename : List Char → List Char → OnVolume Disk Vol FResult
  mkdir : List Char → OnVolume Disk Vol FResult
  opendir : List Char → OnVolume Disk Vol (FResult × DirObj)
  readdir : DirObj → OnVolume Disk Vol ((FResult × FilInfo) × DirObj)

variable (c : FatCore) (Mnt : Type)

/-- `FATFS`. -/
structure FatRecord where
  fsType : Option FatType
  id : Nat
  vol : c.Vol

/-- The globals of `ff.c`, `fatfs_vfs.c` and `ramdisk.c`, and the records of the mounts. -/
structure Drive where
  fatDisk : Option (Fin 2)
  disks : Fin 2 → c.Disk
  fatFs : Option Mnt
  fsid : Nat
  record : Mnt → FatRecord c

/-- `FIL` or `DIR`: the members of `FFOBJID` that tie it to its volume, and the others. -/
structure FatObject (Body : Type) where
  fs : Option Mnt
  id : Nat
  body : Body

variable {c Mnt}

/-- `IsTerminator`. -/
def isTerminator (ch : Char) : Bool := ch < '!'

/-- `get_ldnumber`: the path behind the drive prefix; `none` for a drive other than 0. -/
def getLdnumber (path : List Char) : Option (List Char) :=
  let pre := path.takeWhile fun ch => !isTerminator ch && ch != ':'
  match path.drop pre.length with
  | ':' :: rest => if pre = ['0'] then some rest else none
  | _ => some path

namespace Drive

section Disk

variable (s : Drive c Mnt)

/-- What is found through `fat_disk`. -/
def disk : Option c.Disk := s.fatDisk.map s.disks

def setDisk (d : Option c.Disk) : Drive c Mnt :=
  match s.fatDisk,d with
  | some no,some d => { s with disks := Function.update s.disks no d }
  | _,_ => s

end Disk

variable [DecidableEq Mnt]

def setRecord (s : Drive c Mnt) (m : Mnt) (r : FatRecord c) : Drive c Mnt :=
  { s with record := Function.update s.record m r }

/-- `fs->fs_type = 0`. -/
def invalidate (s : Drive c Mnt) (m : Mnt) : Drive c Mnt :=
  s.setRecord m { s.record m with fsType := none }

def onVolume {α : Type} (s : Drive c Mnt) (m : Mnt) (ft : FatType)
    (f : OnVolume c.Disk c.Vol α) : α × Drive c Mnt :=
  let (a,vol,d) := f ft (s.record m).vol s.disk
  (a,(s.setRecord m { s.record m with vol := vol }).setDisk d)

/-- The part of `mount_volume` for a volume that is not mounted. -/
def analyzeVolume (m : Mnt) (s : Drive c Mnt) : Except FResult FatType × Drive c Mnt :=
  let (fmt,vol,d) := c.analyze (s.record m).vol s.disk
  let s := (s.setRecord m { s.record m with vol := vol }).setDisk d
  match fmt with
  | .error e => (.error e.val,s)
  | .ok ft =>
    let fsid := (s.fsid + 1) % 2 ^ 16
    (.ok ft,{ s.setRecord m ⟨some ft,fsid,vol⟩ with fsid := fsid })

/-- `mount_volume`: the mounted volume of the path and the path behind its prefix. -/
def mountVolume (path : List Char) (s : Drive c Mnt) :
    Except FResult (Mnt × FatType × List Char) × Drive c Mnt :=
  match getLdnumber path with
  | none => (.error .invalidDrive,s)
  | some rest =>
    match s.fatFs with
    | none => (.error .notEnabled,s)
    | some m =>
      match (s.record m).fsType with
      | some ft => (.ok (m,ft,rest),s)
      | none =>
        let (res,s) := s.analyzeVolume m
        (res.map fun ft => (m,ft,rest),s)

/-- `validate`. -/
def validate {Body : Type} (s : Drive c Mnt) (obj : FatObject Mnt Body) : Option (Mnt × FatType) :=
  match obj.fs with
  | none => none
  | some m =>
    match (s.record m).fsType with
    | none => none
    | some ft => if obj.id = (s.record m).id then some (m,ft) else none

/-- A function with a path. -/
def onPath {α : Type} (path : CStr) (fail : FResult → α)
    (f : List Char → OnVolume c.Disk c.Vol α) (s : Drive c Mnt) : α × Drive c Mnt :=
  match mountVolume path.chars s with
  | (.error e,s) => (fail e,s)
  | (.ok (m,ft,rest),s) => s.onVolume m ft (f rest)

/-- A function that opens an object: the object is tied to the volume, or to none. -/
def openObject {Body : Type} (path : CStr) (obj : FatObject Mnt Body)
    (f : List Char → OnVolume c.Disk c.Vol (FResult × Body)) (s : Drive c Mnt) :
    FResult × FatObject Mnt Body × Drive c Mnt :=
  match mountVolume path.chars s with
  | (.error e,s) => (e,{ obj with fs := none },s)
  | (.ok (m,ft,rest),s) =>
    let ((res,body),s) := s.onVolume m ft (f rest)
    if res = .ok then (res,⟨some m,(s.record m).id,body⟩,s) else (res,{ obj with fs := none },s)

/-- A function with an open object. -/
def onObject {Body α : Type} (obj : FatObject Mnt Body) (fail : α)
    (f : Body → OnVolume c.Disk c.Vol (α × Body)) (s : Drive c Mnt) :
    α × FatObject Mnt Body × Drive c Mnt :=
  match s.validate obj with
  | none => (fail,obj,s)
  | some (m,ft) =>
    let ((a,body),s) := s.onVolume m ft (f obj.body)
    (a,{ obj with body := body },s)

/-- `f_close` and `f_closedir` after what they flush. -/
def release {Body : Type} (obj : FatObject Mnt Body) (s : Drive c Mnt) :
    FResult × FatObject Mnt Body :=
  match s.validate obj with
  | none => (.invalidObject,obj)
  | some _ => (.ok,{ obj with fs := none })

/-- Whatever volume is registered is not any more. -/
def unregister (s : Drive c Mnt) : Drive c Mnt :=
  match s.fatFs with
  | none => s
  | some cfs => { s.invalidate cfs with fatFs := none }

/-- `f_mount(fs, path, 1)`. -/
def fMount (fs : Mnt) (path : CStr) (s : Drive c Mnt) : FResult × Drive c Mnt :=
  match getLdnumber path.chars with
  | none => (.invalidDrive,s)
  | some _ =>
    let s := s.unregister
    let s := { s.invalidate fs with fatFs := some fs }
    match mountVolume path.chars s with
    | (.error e,s) => (e,s)
    | (.ok _,s) => (.ok,s)

/-- `f_mount(0, path, 0)`. -/
def fUnmount (path : CStr) (s : Drive c Mnt) : FResult × Drive c Mnt :=
  match getLdnumber path.chars with
  | none => (.invalidDrive,s)
  | some _ => (.ok,s.unregister)

def fMkfs (path : CStr) (s : Drive c Mnt) : FResult × Drive c Mnt :=
  match getLdnumber path.chars with
  | none => (.invalidDrive,s)
  | some _ =>
    let s :=
      match s.fatFs with
      | none => s
      | some cfs => s.invalidate cfs
    let (res,d) := c.mkfs s.disk
    (res,s.setDisk d)

def fClose {Body : Type} (obj : FatObject Mnt Body)
    (sync : Body → OnVolume c.Disk c.Vol (FResult × Body)) (s : Drive c Mnt) :
    FResult × FatObject Mnt Body × Drive c Mnt :=
  let (res,obj,s) := s.onObject obj .invalidObject sync
  if res = .ok then
    let (res,obj) := s.release obj
    (res,obj,s)
  else
    (res,obj,s)

/-- The drive prefix of the new name is dropped unread. -/
def fRename (pathOld pathNew : CStr) (s : Drive c Mnt) : FResult × Drive c Mnt :=
  let pathNew := (getLdnumber pathNew.chars).getD pathNew.chars
  s.onPath pathOld id fun rest => c.rename rest pathNew

end Drive

/-- FatFs on its single drive. -/
abbrev FatCore.fatFs (c : FatCore) (Mnt : Type) [DecidableEq Mnt] : FatFs Mnt where
  Fil := FatObject Mnt c.Obj
  Dir := FatObject Mnt c.DirObj
  σ := Drive c Mnt
  zeroFil := ⟨none,0,c.zeroObj⟩
  zeroDir := ⟨none,0,c.zeroDirObj⟩
  openDisk no s :=
    let fatDisk := ramdiskOpen no
    (fatDisk.isSome,{ s with fatDisk := fatDisk })
  clear m s := s.setRecord m ⟨none,0,c.zeroVol⟩
  mount m path s := s.fMount m path
  unmount path s := s.fUnmount path
  mkfs path s := s.fMkfs path
  open_ path mode fp s := s.openObject path fp fun rest => c.open_ rest mode
  close fp s := s.fClose fp c.sync
  read btr fp s := s.onObject fp (.invalidObject,[]) (c.read btr)
  write buff fp s := s.onObject fp (.invalidObject,0) (c.write buff)
  sync fp s := s.onObject fp .invalidObject c.sync
  lseek ofs fp s := s.onObject fp .invalidObject (c.lseek ofs)
  tell fp := c.tell fp.body
  size fp := c.size fp.body
  stat path s := s.onPath path (fun e => (e,⟨0,0,0,0,[]⟩)) c.stat
  unlink path s := s.onPath path id c.unlink
  rename pathOld pathNew s := s.fRename pathOld pathNew
  mkdir path s := s.onPath path id c.mkdir
  opendir path dp s := s.openObject path dp c.opendir
  readdir dp s := s.onObject dp (.invalidObject,⟨0,0,0,0,[]⟩) c.readdir
  closedir dp s :=
    let (res,dp) := s.release dp
    (res,dp,s)

end UcVfs
