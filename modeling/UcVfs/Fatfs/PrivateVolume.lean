import UcVfs.Fatfs.PathNames
import UcVfs.Fatfs.NumberedFiles

/-!
# A mount with a drive of its own

What the calls about one mount would do if FatFs served no other: no table of volumes, no
mount counter and no pointer to a disk that others may move. An object is live as long as
the volume that it was opened on is mounted.
-/

namespace UcVfs

structure PrivateHandle (c : FatCore) where
  flags : Nat
  live : Bool
  obj : c.Obj

structure PrivateVolume (c : FatCore) where
  vol : Option (FatType × c.Vol)
  disk : c.Disk
  openFiles : Nat
  opened : Nat
  handles : Nat → Option (PrivateHandle c)

/-- The path of a name in the buffer of its mount. -/
def absPathOf (name : CStr) : List Char := '/' :: name.chars.take (FATFS_MAX_ABS_PATH_SIZE - 2)

/-- The path of a rename's destination, without the drive. -/
def absPathToOf (name : CStr) : List Char :=
  '0' :: ':' :: '/' :: name.chars.take (FATFS_MAX_ABS_PATH_SIZE - 4)

variable {c : FatCore}

/-- What is done with a mounted volume and its own disk. -/
def OnVolume.at_ {α : Type} (f : OnVolume c.Disk c.Vol α) (ft : FatType) (vol : c.Vol)
    (disk : c.Disk) : α × c.Vol × c.Disk :=
  let (a,vol,d) := f ft vol (some disk)
  (a,vol,d.getD disk)

/-- The same for a path, whose drive must be 0. -/
def atPath {α : Type} (path : List Char) (fail : FResult → α)
    (f : List Char → OnVolume c.Disk c.Vol α) (ft : FatType) (vol : c.Vol) (disk : c.Disk) :
    α × c.Vol × c.Disk :=
  match getLdnumber path with
  | none => (fail .invalidDrive,vol,disk)
  | some rest => OnVolume.at_ (f rest) ft vol disk

namespace PrivateVolume

/-- The volume and the disk after something was done with them. -/
def after (v : PrivateVolume c) (ft : FatType) (vol : c.Vol) (disk : c.Disk) : PrivateVolume c :=
  { v with vol := some (ft,vol),disk := disk }

def setHandle (v : PrivateVolume c) (k : Nat) (h : Option (PrivateHandle c)) : PrivateVolume c :=
  { v with handles := Function.update v.handles k h }

def setCounts (v : PrivateVolume c) (openFiles opened : Nat) : PrivateVolume c :=
  { v with openFiles := openFiles,opened := opened }

/-- A call with a path. -/
def call (path : List Char) (f : List Char → OnVolume c.Disk c.Vol FResult)
    (v : PrivateVolume c) : VolResult × PrivateVolume c :=
  match v.vol with
  | none => (⟨-ENOENT,[]⟩,v)
  | some (ft,vol) =>
    let (res,vol,disk) := atPath path id f ft vol v.disk
    (⟨fatfsErrToErrno res,[]⟩,v.after ft vol disk)

/-- A call with an open object; one that is not live is refused. -/
def object {α : Type} (h : PrivateHandle c) (fail : α)
    (f : c.Obj → OnVolume c.Disk c.Vol (α × c.Obj)) (v : PrivateVolume c) :
    (α × c.Obj) × PrivateVolume c :=
  match h.live,v.vol with
  | true,some (ft,vol) =>
    let (r,vol,disk) := OnVolume.at_ (f h.obj) ft vol v.disk
    (r,v.after ft vol disk)
  | _,_ => ((fail,h.obj),v)

def format (v : PrivateVolume c) : VolResult × PrivateVolume c :=
  if v.vol.isSome then (⟨-EBUSY,[]⟩,v)
  else
    let (res,d) := c.mkfs (some v.disk)
    (⟨fatfsErrToErrno res,[]⟩,{ v with disk := d.getD v.disk })

def mount (v : PrivateVolume c) : VolResult × PrivateVolume c :=
  if v.vol.isSome then (⟨-EBUSY,[]⟩,v)
  else
    let (fmt,vol,d) := c.analyze c.zeroVol (some v.disk)
    match fmt with
    | .error e => (⟨fatfsErrToErrno e.val,[]⟩,{ v with disk := d.getD v.disk })
    | .ok ft => (⟨0,[]⟩,v.after ft vol (d.getD v.disk))

def umount (force : Bool) (v : PrivateVolume c) : VolResult × PrivateVolume c :=
  if ¬v.vol.isSome then (⟨-EINVAL,[]⟩,v)
  else if 0 < v.openFiles ∧ ¬force then (⟨-EBUSY,[]⟩,v)
  else (⟨0,[]⟩,{ v with
    vol := none
    handles := fun k => (v.handles k).map fun h => { h with live := false } })

def open_ (name : CStr) (flags : Nat) (v : PrivateVolume c) : VolResult × PrivateVolume c :=
  match v.vol with
  | none => (⟨-ENOENT,[]⟩,v)
  | some (ft,vol) =>
    let (r,vol,disk) := atPath (absPathOf name) (fun e => (e,c.zeroObj))
      (fun rest => c.open_ rest (Fatfs.openFlags flags)) ft vol v.disk
    let v := v.after ft vol disk
    if r.1 = .ok then
      (⟨v.opened,[]⟩,(v.setHandle v.opened (some ⟨flags,true,r.2⟩)).setCounts (v.openFiles + 1)
        (v.opened + 1))
    else
      (⟨fatfsErrToErrno r.1,[]⟩,v)

def read (k count : Nat) (v : PrivateVolume c) : VolResult × PrivateVolume c :=
  match v.handles k with
  | none => (⟨-EBADF,[]⟩,v)
  | some h =>
    if h.flags &&& O_ACCMODE ≠ O_RDONLY ∧ h.flags &&& O_ACCMODE ≠ O_RDWR then (⟨-EBADF,[]⟩,v)
    else
      let (((res,data),obj),v) := v.object h (.invalidObject,[]) (c.read count)
      let v := v.setHandle k (some { h with obj := obj })
      if res ≠ .ok then (⟨fatfsErrToErrno res,data⟩,v) else (⟨data.length,data⟩,v)

def write (k : Nat) (src : List UInt8) (v : PrivateVolume c) : VolResult × PrivateVolume c :=
  match v.handles k with
  | none => (⟨-EBADF,[]⟩,v)
  | some h =>
    if h.flags &&& O_ACCMODE ≠ O_WRONLY ∧ h.flags &&& O_ACCMODE ≠ O_RDWR then (⟨-EBADF,[]⟩,v)
    else
      let (((res,bw),obj),v) := v.object h (.invalidObject,0) (c.write src)
      let v := v.setHandle k (some { h with obj := obj })
      if res ≠ .ok then (⟨fatfsErrToErrno res,[]⟩,v) else (⟨bw,[]⟩,v)

def close (k : Nat) (v : PrivateVolume c) : VolResult × PrivateVolume c :=
  match v.handles k with
  | none => (⟨-EBADF,[]⟩,v)
  | some h =>
    let ((res,_),v) := v.object h .invalidObject c.sync
    (⟨fatfsErrToErrno res,[]⟩,(v.setHandle k none).setCounts (v.openFiles - 1) v.opened)

def exec : VolOp → PrivateVolume c → VolResult × PrivateVolume c
  | .format,v => v.format
  | .mount,v => v.mount
  | .umount force,v => v.umount force
  | .open_ name flags,v => v.open_ name flags
  | .read k count,v => v.read k count
  | .write k src,v => v.write k src
  | .close k,v => v.close k
  | .unlink name,v => v.call (absPathOf name) c.unlink
  | .rename fromPath toPath,v =>
    v.call (absPathOf fromPath) fun rest =>
      c.rename rest ((getLdnumber (absPathToOf toPath)).getD (absPathToOf toPath))

end PrivateVolume

end UcVfs
