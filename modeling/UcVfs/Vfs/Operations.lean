import UcVfs.Vfs.Actions

/-!
# The operations of `vfs.c`

Each operation is a program over the atomic actions, following its C function statement by
statement. A pointer argument that may be null is an `Option`.
-/

namespace UcVfs

open Framework

variable {W : World}

abbrev VProg (W : World) (ρ : Type) := Prog (Action.Resp (W := W)) ρ

abbrev act (x : Action W) : VProg W x.Resp := Prog.act x

def crash {ρ : Type} : VProg W ρ := Prog.step .fault fun r => nomatch r

/-- `mountp->fs`, used as a pointer. -/
def mountFs (m : W.Mnt) : VProg W (FileSystem W) := do
  match ← act (.fs m) with
  | none => crash
  | some fs => pure fs

/-- `filp->f_op`, used as a pointer. -/
def fileOps (filp : Fd) : VProg W (FileOps W) := do
  let e ← act (.file filp)
  match e.fOp with
  | none => crash
  | some ops => pure ops

/-- The pinned mount and the path below it. -/
def findMount (name : CStr) : VProg W (Except Int (W.Mnt × CStr)) := do
  match ← act (.findMount name) with
  | .error res => pure (.error res)
  | .ok (mountp,longestMatch) =>
    let fs ← mountFs mountp
    if fs.flags &&& VFS_FS_FLAG_WANT_ABS_PATH ≠ 0 then
      pure (.ok (mountp,name))
    else
      pure (.ok (mountp,name.drop longestMatch))

/-- `(unsigned int)fd < VFS_MAX_OPEN_FILES`, with the entry it indexes. -/
def fdIndex (fd : Int) : Option Fd :=
  if h : 0 ≤ fd ∧ fd < VFS_MAX_OPEN_FILES then some ⟨fd.toNat,by omega⟩ else none

/-- The entry that a descriptor stands for, when it is valid. -/
def State.entry (s : State W) (fd : Int) : Option Fd :=
  (fdIndex fd).filter fun f => (s.files f).tcb.isSome && (s.files f).fOp.isSome

theorem State.entry_eq_some {s : State W} {fd : Int} {f : Fd} (h : s.entry fd = some f) :
    (s.files f).tcb.isSome ∧ ∃ ops,(s.files f).fOp = some ops := by
  obtain ⟨_,hf⟩ := Option.filter_eq_some_iff.mp h
  rw [Bool.and_eq_true] at hf
  exact ⟨hf.1,Option.isSome_iff_exists.mp hf.2⟩

def fdIsValid (fd : Int) : VProg W (Except Int Fd) :=
  match fdIndex fd with
  | none => pure (.error (-EBADF))
  | some filp => do
    let e ← act (.file filp)
    if e.tcb.isNone then
      pure (.error (-EBADF))
    else
      let e ← act (.file filp)
      if e.fOp.isNone then pure (.error (-EBADF)) else pure (.ok filp)

def freeFd (fd : Fd) : VProg W Unit := do
  let e ← act (.file fd)
  match e.mp with
  | none => act (.clearTcb fd)
  | some m =>
    act (.unpin m)
    act (.clearTcb fd)

def vfsClose (fd : Int) : VProg W Int := do
  match ← fdIsValid fd with
  | .error res => pure res
  | .ok filp =>
    let ops ← fileOps filp
    if ops.close.isSome then
      let ans ← act (.fileCall filp .close)
      freeFd filp
      pure ans.res
    else
      freeFd filp
      pure 0

/-- Returns what is left in `buf` as well. -/
def vfsFstat (fd : Int) (buf : Option Stat) : VProg W (Int × Option Stat) :=
  match buf with
  | none => pure (-EFAULT,none)
  | some buf => do
    match ← fdIsValid fd with
    | .error res => pure (res,some buf)
    | .ok filp =>
      let ops ← fileOps filp
      if ops.fstat.isNone then
        pure (-EINVAL,some buf)
      else
        let ans ← act (.fileCall filp .fstat)
        pure (ans.res,some ans.stat)

def vfsLseek (fd : Int) (off whence : Int) : VProg W Int := do
  match ← fdIsValid fd with
  | .error res => pure res
  | .ok filp =>
    let ops ← fileOps filp
    if ops.lseek.isNone then
      -- the naive default: no SEEK_END, and the driver never hears of it
      let e ← act (.file filp)
      if whence = SEEK_SET ∨ whence = SEEK_CUR then
        let off := if whence = SEEK_CUR then wrapOff (off + e.pos) else off
        if off < 0 then
          pure (-EINVAL)
        else
          act (.setPos filp off)
          pure off
      else
        pure (-EINVAL)
    else
      let ans ← act (.fileCall filp (.lseek off whence))
      pure ans.res

def vfsOpen (name : Option CStr) (flags mode : Nat) : VProg W Int :=
  match name with
  | none => pure (-EINVAL)
  | some name => do
    match ← findMount name with
    | .error res => pure res
    | .ok (mountp,relPath) =>
      let fs ← mountFs mountp
      match ← act (.initFd fs.fOp mountp flags) with
      | .error res =>
        act (.unpin mountp)
        pure res
      | .ok filp =>
        let ops ← fileOps filp
        if ops.open_.isSome then
          let ans ← act (.fileCall filp (.open_ relPath flags mode))
          if ans.res < 0 then
            freeFd filp
            pure ans.res
          else
            pure (filp : Nat)
        else
          pure (filp : Nat)

def prepRead (fd : Int) (dest : Bool) : VProg W (Except Int Fd) :=
  if ¬dest then
    pure (.error (-EFAULT))
  else do
    match ← fdIsValid fd with
    | .error res => pure (.error res)
    | .ok filp =>
      let e ← act (.file filp)
      if e.flags &&& O_ACCMODE ≠ O_RDONLY ∧ e.flags &&& O_ACCMODE ≠ O_RDWR then
        pure (.error (-EBADF))
      else
        let ops ← fileOps filp
        if ops.read.isNone then pure (.error (-EINVAL)) else pure (.ok filp)

/-- Returns the bytes that the driver stored in `dest` as well. -/
def vfsRead (fd : Int) (dest : Bool) (count : Nat) : VProg W (Int × List UInt8) := do
  match ← prepRead fd dest with
  | .error res => pure (res,[])
  | .ok filp =>
    let ans ← act (.fileCall filp (.read count))
    pure (ans.res,ans.data)

def vfsWrite (fd : Int) (src : Option (List UInt8)) : VProg W Int :=
  match src with
  | none => pure (-EFAULT)
  | some src => do
    match ← fdIsValid fd with
    | .error res => pure res
    | .ok filp =>
      let e ← act (.file filp)
      if e.flags &&& O_ACCMODE ≠ O_WRONLY ∧ e.flags &&& O_ACCMODE ≠ O_RDWR then
        pure (-EBADF)
      else
        let ops ← fileOps filp
        if ops.write.isNone then
          pure (-EINVAL)
        else
          let ans ← act (.fileCall filp (.write src))
          pure ans.res

def vfsFsync (fd : Int) : VProg W Int := do
  match ← fdIsValid fd with
  | .error res => pure res
  | .ok filp =>
    let e ← act (.file filp)
    if e.flags &&& O_ACCMODE ≠ O_WRONLY ∧ e.flags &&& O_ACCMODE ≠ O_RDWR then
      pure (-EBADF)
    else
      let ops ← fileOps filp
      if ops.fsync.isNone then
        pure (-EINVAL)
      else
        let ans ← act (.fileCall filp .fsync)
        pure ans.res

def vfsOpendir (dirp : Option W.Dir) (dirname : Option CStr) : VProg W Int :=
  match dirp,dirname with
  | some dirp,some dirname => do
    match ← findMount dirname with
    | .error res => pure res
    | .ok (mountp,relPath) =>
      let relPath := if relPath.at_ 0 = nul then CStr.root else relPath
      let fs ← mountFs mountp
      match fs.dOp with
      | none => pure (-EINVAL)
      | some dOp =>
        act (.initDir dirp mountp dOp)
        if dOp.opendir.isSome then
          let ans ← act (.dirCall dirp (.opendir relPath))
          if ans.res < 0 then
            act (.unpin mountp)
            pure ans.res
          else
            pure 0
        else
          pure 0
  | _,_ => pure (-EINVAL)

/-- Returns what the driver left in `entry` as well. -/
def vfsReaddir (dirp : Option W.Dir) (entry : Option Dirent) : VProg W (Int × Option Dirent) :=
  match dirp,entry with
  | some dirp,some entry => do
    let o ← act (.dir dirp)
    match o.dOp.bind (·.readdir) with
    | some _ =>
      let ans ← act (.dirCall dirp (.readdir entry))
      pure (ans.res,some ans.entry)
    | none => pure (-EINVAL,some entry)
  | _,entry => pure (-EINVAL,entry)

def vfsClosedir (dirp : Option W.Dir) : VProg W Int :=
  match dirp with
  | none => pure (-EINVAL)
  | some dirp => do
    let o ← act (.dir dirp)
    match o.mp with
    | none => pure (-EBADF)
    | some mountp =>
      match o.dOp.bind (·.closedir) with
      | some _ =>
        let ans ← act (.dirCall dirp .closedir)
        act (.clearDir dirp)
        act (.unpin mountp)
        pure ans.res
      | none =>
        act (.clearDir dirp)
        act (.unpin mountp)
        pure 0

def vfsFormat (mountp : Option W.Mnt) : VProg W Int := do
  let ret ← act (.formatCheck mountp)
  if ret < 0 then
    pure ret
  else
    match mountp with
    | none => crash
    | some m =>
      let fs ← mountFs m
      match fs.fsCallback .format with
      | some _ =>
        let ans ← act (.fsCall m .format)
        pure ans.res
      | none => pure (-ENOTSUP)

def vfsMount (mountp : Option W.Mnt) : VProg W Int := act (.mount mountp)

def vfsUmount (mountp : Option W.Mnt) (force : Bool) : VProg W Int := do
  let ret ← act (.umountCheck mountp)
  if ret = -EBUSY then
    match mountp with
    | none => crash
    | some m => act (.umount m force)
  else
    pure (-EINVAL)

def vfsRename (fromPath toPath : Option CStr) : VProg W Int :=
  match fromPath,toPath with
  | some fromPath,some toPath => do
    match ← findMount fromPath with
    | .error res => pure res
    | .ok (mountp,relFrom) =>
      let fs ← mountFs mountp
      match fs.fsOp.bind (·.rename) with
      | none =>
        act (.unpin mountp)
        pure (-EROFS)
      | some _ =>
        match ← findMount toPath with
        | .error res =>
          act (.unpin mountp)
          pure res
        | .ok (mountpTo,relTo) =>
          if mountpTo ≠ mountp then
            act (.unpin mountp)
            act (.unpin mountpTo)
            pure (-EXDEV)
          else
            let ans ← act (.fsCall mountp (.rename relFrom relTo))
            act (.unpin mountp)
            act (.unpin mountpTo)
            pure ans.res
  | _,_ => pure (-EINVAL)

/-- The common body of the operations on one path. `missing` is the error of a driver that
lacks the operation. -/
def vfsPathOp (missing : Int) (req : CStr → FsReq) (name : CStr) :
    VProg W (Int × Option Stat) := do
  match ← findMount name with
  | .error res => pure (res,none)
  | .ok (mountp,relPath) =>
    let fs ← mountFs mountp
    match fs.fsCallback (req relPath) with
    | none =>
      act (.unpin mountp)
      pure (-missing,none)
    | some _ =>
      let ans ← act (.fsCall mountp (req relPath))
      act (.unpin mountp)
      pure (ans.res,some ans.stat)

def vfsUnlink (name : Option CStr) : VProg W Int :=
  match name with
  | none => pure (-EINVAL)
  | some name => Prod.fst <$> vfsPathOp EROFS .unlink name

def vfsMkdir (name : Option CStr) (mode : Nat) : VProg W Int :=
  match name with
  | none => pure (-EINVAL)
  | some name => Prod.fst <$> vfsPathOp ENOTSUP (.mkdir · mode) name

def vfsRmdir (name : Option CStr) : VProg W Int :=
  match name with
  | none => pure (-EINVAL)
  | some name => Prod.fst <$> vfsPathOp ENOTSUP .rmdir name

/-- Returns what is left in `buf` as well. -/
def vfsStat (path : Option CStr) (buf : Option Stat) : VProg W (Int × Option Stat) :=
  match path,buf with
  | some path,some buf => do
    let (res,st) ← vfsPathOp EPERM .stat path
    pure (res,some (st.getD buf))
  | _,buf => pure (-EINVAL,buf)

/-- The calls that a task can make. -/
inductive Op (W : World)
  | open_ (name : Option CStr) (flags mode : Nat)
  | close (fd : Int)
  | fstat (fd : Int) (buf : Option Stat)
  | lseek (fd : Int) (off whence : Int)
  | read (fd : Int) (dest : Bool) (count : Nat)
  | write (fd : Int) (src : Option (List UInt8))
  | fsync (fd : Int)
  | opendir (dirp : Option W.Dir) (dirname : Option CStr)
  | readdir (dirp : Option W.Dir) (entry : Option Dirent)
  | closedir (dirp : Option W.Dir)
  | format (mountp : Option W.Mnt)
  | mount (mountp : Option W.Mnt)
  | umount (mountp : Option W.Mnt) (force : Bool)
  | rename (fromPath toPath : Option CStr)
  | unlink (name : Option CStr)
  | mkdir (name : Option CStr) (mode : Nat)
  | rmdir (name : Option CStr)
  | stat (path : Option CStr) (buf : Option Stat)

/-- A call as a program with the returned `int`. -/
def Op.prog : Op W → VProg W Int
  | open_ name flags mode => vfsOpen name flags mode
  | close fd => vfsClose fd
  | fstat fd buf => Prod.fst <$> vfsFstat fd buf
  | lseek fd off whence => vfsLseek fd off whence
  | read fd dest count => Prod.fst <$> vfsRead fd dest count
  | write fd src => vfsWrite fd src
  | fsync fd => vfsFsync fd
  | opendir dirp dirname => vfsOpendir dirp dirname
  | readdir dirp entry => Prod.fst <$> vfsReaddir dirp entry
  | closedir dirp => vfsClosedir dirp
  | format mountp => vfsFormat mountp
  | mount mountp => vfsMount mountp
  | umount mountp force => vfsUmount mountp force
  | rename fromPath toPath => vfsRename fromPath toPath
  | unlink name => vfsUnlink name
  | mkdir name mode => vfsMkdir name mode
  | rmdir name => vfsRmdir name
  | stat path buf => Prod.fst <$> vfsStat path buf

end UcVfs
