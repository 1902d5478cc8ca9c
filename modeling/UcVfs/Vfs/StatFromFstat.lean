import UcVfs.Vfs.Operations

/-!
# `vfs_sysop_stat_from_fstat`

The `stat` that the VFS layer offers to drivers: it opens the path with the file operations of
the driver, asks `fstat` and closes, and falls back to a probe with the directory operations.
-/

namespace UcVfs

variable {W : World}

/-- The mounts whose `fs_op->stat` is `vfs_sysop_stat_from_fstat`, and what its initialiser
leaves open: the bytes of the `private_data` union beyond `ptr`, and what `private_data` of the
DIR reads when the file object that shares its memory has been used. -/
structure Sysop (W : World) where
  uses : W.Mnt → Bool
  filePriv : W.Priv
  dirPriv : W.Priv → W.Priv

namespace Sysop

variable (sp : Sysop W)

/-- `_is_dir`; `none` is a null dereference. -/
def isDir (mountp : W.Mnt) (fs : FileSystem W) (priv : W.Priv) (path : CStr) (drv : W.Drv) :
    Option (Bool × W.Drv) := do
  let ops ← fs.dOp
  match ops.opendir with
  | none => some (false,drv)
  | some opendir =>
    let ans := opendir path ⟨some mountp,priv⟩ drv
    if ans.res < 0 then
      some (false,ans.drv)
    else
      let closedir ← ops.closedir
      some (true,(closedir ⟨some mountp,ans.priv⟩ ans.drv).drv)

/-- `vfs_sysop_stat_from_fstat` with a zeroed `buf`; `none` is a null dereference. -/
def statFromFstat (mountp : W.Mnt) (fs : FileSystem W) (path : CStr) (drv : W.Drv) :
    Option (FsAns W) := do
  let fOp ← fs.fOp
  let open_ ← fOp.open_
  let file := open_ path 0 0 ⟨some mountp,0,0,W.nullPtr sp.filePriv⟩ drv
  if file.res < 0 then
    let (isDir,drv) ← isDir mountp fs (sp.dirPriv file.priv) path file.drv
    if isDir then
      some ⟨0,{ Stat.zero with mode := S_IFDIR },drv⟩
    else
      some ⟨file.res,Stat.zero,drv⟩
  else
    let fstat ← fOp.fstat
    let st := fstat ⟨some mountp,0,file.pos,file.priv⟩ file.drv
    let close ← fOp.close
    some ⟨st.res,st.stat,(close ⟨some mountp,0,st.pos,st.priv⟩ st.drv).drv⟩

end Sysop

/-- An action where some mounts have `vfs_sysop_stat_from_fstat` for their `fs_op->stat`. -/
def Action.execSysop (sp : Sysop W) (tcb : W.Task) :
    (x : Action W) → State W → Option (x.Resp × State W)
  | fsCall m (.stat path),s =>
    if sp.uses m then do
      let fs ← (s.mounts m).fs
      let ans ← sp.statFromFstat m fs path s.drv
      some (⟨ans.res,ans.stat⟩,s.returned ans.drv (.fs m (.stat path) ans.res))
    else
      (fsCall m (.stat path)).exec tcb s
  | x,s => x.exec tcb s

end UcVfs
