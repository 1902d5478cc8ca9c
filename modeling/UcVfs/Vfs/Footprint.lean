import UcVfs.Vfs.Operations

/-!
# What an operation asks of a driver

The requests to `fs_op` that an operation can make. Its other actions are not told apart.
-/

namespace UcVfs

open Framework Prog

variable {W : World}

/-- The requests to the file system operations of a driver that a call can lead to. -/
def Op.Requests : Op W → W.Mnt → FsReq → Prop
  | format mountp,m,req => mountp = some m ∧ req = .format
  | rename _ _,_,.rename _ _ => True
  | unlink _,_,.unlink _ => True
  | mkdir _ _,_,.mkdir _ _ => True
  | rmdir _,_,.rmdir _ => True
  | stat _ _,_,.stat _ => True
  | _,_,_ => False

section Only

variable {Q : Action W → Prop} (hQ : ∀ x : Action W,(∀ m req,x ≠ .fsCall m req) → Q x)

include hQ

theorem only_act {x : Action W} (hx : ∀ m req,x ≠ .fsCall m req) : (UcVfs.act x).Only Q :=
  ⟨hQ x hx,fun _ => trivial⟩

theorem only_crash {ρ : Type} : (crash : VProg W ρ).Only Q :=
  ⟨hQ _ (by simp),fun r => nomatch r⟩

theorem only_mountFs (m : W.Mnt) : (mountFs m).Only Q := by
  apply (only_act hQ (by simp)).bind
  intro fs
  cases fs with
  | none => exact only_crash hQ
  | some fs => trivial

theorem only_fileOps (filp : Fd) : (fileOps (W := W) filp).Only Q := by
  apply (only_act hQ (by simp)).bind
  intro e
  cases e.fOp with
  | none => exact only_crash hQ
  | some ops => trivial

theorem only_findMount (name : CStr) : (findMount (W := W) name).Only Q := by
  apply (only_act hQ (by simp)).bind
  intro r
  cases r with
  | error res => trivial
  | ok r =>
    apply (only_mountFs hQ r.1).bind
    intro fs
    split <;> trivial

theorem only_fdIsValid (fd : Int) : (fdIsValid (W := W) fd).Only Q := by
  unfold fdIsValid
  cases fdIndex fd with
  | none => trivial
  | some filp =>
    apply (only_act hQ (by simp)).bind
    intro e
    by_cases hfree : e.tcb.isNone
    · rw [if_pos hfree]
      trivial
    · rw [if_neg hfree]
      apply (only_act hQ (by simp)).bind
      intro e
      split <;> trivial

theorem only_freeFd (fd : Fd) : (freeFd (W := W) fd).Only Q := by
  apply (only_act hQ (by simp)).bind
  intro e
  cases e.mp with
  | none => exact only_act hQ (by simp)
  | some m => exact (only_act hQ (by simp)).bind fun _ => only_act hQ (by simp)

/-- An operation on a valid descriptor. -/
theorem only_onFd {ρ : Type} (fd : Int) {f : Except Int Fd → VProg W ρ}
    (herr : ∀ res,(f (.error res)).Only Q) (hok : ∀ filp,(f (.ok filp)).Only Q) :
    (fdIsValid fd >>= f).Only Q := by
  apply (only_fdIsValid hQ fd).bind
  intro r
  cases r with
  | error res => exact herr res
  | ok filp => exact hok filp

/-- An operation below a mount that was found. -/
theorem only_onMount {ρ : Type} (name : CStr) {f : Except Int (W.Mnt × CStr) → VProg W ρ}
    (herr : ∀ res,(f (.error res)).Only Q) (hok : ∀ m relPath,(f (.ok (m,relPath))).Only Q) :
    (findMount name >>= f).Only Q := by
  apply (only_findMount hQ name).bind
  intro r
  cases r with
  | error res => exact herr res
  | ok r => exact hok r.1 r.2

theorem only_vfsClose (fd : Int) : (vfsClose (W := W) fd).Only Q := by
  apply only_onFd hQ fd
  · intro res
    trivial
  · intro filp
    apply (only_fileOps hQ filp).bind
    intro ops
    split
    · apply (only_act hQ (by simp)).bind
      intro ans
      exact (only_freeFd hQ filp).bind fun _ => trivial
    · exact (only_freeFd hQ filp).bind fun _ => trivial

theorem only_vfsFstat (fd : Int) (buf : Option Stat) : (vfsFstat (W := W) fd buf).Only Q := by
  cases buf with
  | none => trivial
  | some buf =>
    apply only_onFd hQ fd
    · intro res
      trivial
    · intro filp
      apply (only_fileOps hQ filp).bind
      intro ops
      split
      · trivial
      · exact (only_act hQ (by simp)).bind fun _ => trivial

theorem only_vfsLseek (fd off whence : Int) : (vfsLseek (W := W) fd off whence).Only Q := by
  apply only_onFd hQ fd
  · intro res
    trivial
  · intro filp
    apply (only_fileOps hQ filp).bind
    intro ops
    split
    · apply (only_act hQ (by simp)).bind
      intro e
      by_cases hknown : whence = SEEK_SET ∨ whence = SEEK_CUR
      · simp only [if_pos hknown]
        generalize (if whence = SEEK_CUR then wrapOff (off + e.pos) else off) = target
        by_cases hneg : target < 0
        · simp only [if_pos hneg]
          trivial
        · simp only [if_neg hneg]
          exact (only_act hQ (by simp)).bind fun _ => trivial
      · simp only [if_neg hknown]
        trivial
    · exact (only_act hQ (by simp)).bind fun _ => trivial

theorem only_vfsOpen (name : Option CStr) (flags mode : Nat) :
    (vfsOpen (W := W) name flags mode).Only Q := by
  cases name with
  | none => trivial
  | some name =>
    apply only_onMount hQ name
    · intro res
      trivial
    · intro m relPath
      apply (only_mountFs hQ m).bind
      intro fs
      apply (only_act hQ (by simp)).bind
      intro r
      cases r with
      | error res => exact (only_act hQ (by simp)).bind fun _ => trivial
      | ok filp =>
        apply (only_fileOps hQ filp).bind
        intro ops
        split
        · apply (only_act hQ (by simp)).bind
          intro ans
          split
          · exact (only_freeFd hQ filp).bind fun _ => trivial
          · trivial
        · trivial

theorem only_prepRead (fd : Int) (dest : Bool) : (prepRead (W := W) fd dest).Only Q := by
  unfold prepRead
  split
  · trivial
  · apply only_onFd hQ fd
    · intro res
      trivial
    · intro filp
      apply (only_act hQ (by simp)).bind
      intro e
      split
      · trivial
      · apply (only_fileOps hQ filp).bind
        intro ops
        split <;> trivial

theorem only_vfsRead (fd : Int) (dest : Bool) (count : Nat) :
    (vfsRead (W := W) fd dest count).Only Q := by
  apply (only_prepRead hQ fd dest).bind
  intro r
  cases r with
  | error res => trivial
  | ok filp => exact (only_act hQ (by simp)).bind fun _ => trivial

theorem only_vfsWrite (fd : Int) (src : Option (List UInt8)) :
    (vfsWrite (W := W) fd src).Only Q := by
  cases src with
  | none => trivial
  | some src =>
    apply only_onFd hQ fd
    · intro res
      trivial
    · intro filp
      apply (only_act hQ (by simp)).bind
      intro e
      split
      · trivial
      · apply (only_fileOps hQ filp).bind
        intro ops
        split
        · trivial
        · exact (only_act hQ (by simp)).bind fun _ => trivial

theorem only_vfsFsync (fd : Int) : (vfsFsync (W := W) fd).Only Q := by
  apply only_onFd hQ fd
  · intro res
    trivial
  · intro filp
    apply (only_act hQ (by simp)).bind
    intro e
    split
    · trivial
    · apply (only_fileOps hQ filp).bind
      intro ops
      split
      · trivial
      · exact (only_act hQ (by simp)).bind fun _ => trivial

theorem only_vfsOpendir (dirp : Option W.Dir) (dirname : Option CStr) :
    (vfsOpendir dirp dirname).Only Q := by
  unfold vfsOpendir
  split
  · apply only_onMount hQ
    · intro res
      trivial
    · intro m relPath
      apply (only_mountFs hQ m).bind
      intro fs
      cases fs.dOp with
      | none => trivial
      | some dOp =>
        apply (only_act hQ (by simp)).bind
        intro _
        split
        · apply (only_act hQ (by simp)).bind
          intro ans
          split
          · exact (only_act hQ (by simp)).bind fun _ => trivial
          · trivial
        · trivial
  · trivial

theorem only_vfsReaddir (dirp : Option W.Dir) (entry : Option Dirent) :
    (vfsReaddir dirp entry).Only Q := by
  unfold vfsReaddir
  split
  · apply (only_act hQ (by simp)).bind
    intro o
    cases o.dOp.bind (·.readdir) with
    | none => trivial
    | some _ => exact (only_act hQ (by simp)).bind fun _ => trivial
  · trivial

theorem only_vfsClosedir (dirp : Option W.Dir) : (vfsClosedir dirp).Only Q := by
  have hunpin {ρ : Type} (m : W.Mnt) (r : ρ) : (act (.unpin m) >>= fun _ => pure r).Only Q :=
    (only_act hQ (by simp)).bind fun _ => trivial
  cases dirp with
  | none => trivial
  | some dirp =>
    apply (only_act hQ (by simp)).bind
    intro o
    cases o.mp with
    | none => trivial
    | some m =>
      cases o.dOp.bind (·.closedir) with
      | none => exact (only_act hQ (by simp)).bind fun _ => hunpin m 0
      | some _ =>
        apply (only_act hQ (by simp)).bind
        intro ans
        exact (only_act hQ (by simp)).bind fun _ => hunpin m ans.res

theorem only_vfsFormat {mountp : Option W.Mnt}
    (hreq : ∀ m,mountp = some m → Q (.fsCall m .format)) : (vfsFormat mountp).Only Q := by
  apply (only_act hQ (by simp)).bind
  intro ret
  split
  · trivial
  · cases mountp with
    | none => exact only_crash hQ
    | some m =>
      apply (only_mountFs hQ m).bind
      intro fs
      cases fs.fsCallback .format with
      | none => trivial
      | some _ => exact ⟨hreq m rfl,fun _ => trivial⟩

theorem only_vfsUmount (mountp : Option W.Mnt) (force : Bool) : (vfsUmount mountp force).Only Q := by
  apply (only_act hQ (by simp)).bind
  intro ret
  split
  · cases mountp with
    | none => exact only_crash hQ
    | some m => exact only_act hQ (by simp)
  · trivial

theorem only_vfsPathOp (missing : Int) {req : CStr → FsReq}
    (hreq : ∀ m relPath,Q (.fsCall m (req relPath))) (name : CStr) :
    (vfsPathOp missing req name).Only Q := by
  apply only_onMount hQ name
  · intro res
    trivial
  · intro m relPath
    apply (only_mountFs hQ m).bind
    intro fs
    cases fs.fsCallback (req relPath) with
    | none => exact (only_act hQ (by simp)).bind fun _ => trivial
    | some _ =>
      refine ⟨hreq m relPath,fun ans => ?_⟩
      exact (only_act hQ (by simp)).bind fun _ => trivial

theorem only_vfsRename (hreq : ∀ m fromPath toPath,Q (.fsCall m (.rename fromPath toPath)))
    (fromPath toPath : Option CStr) : (vfsRename (W := W) fromPath toPath).Only Q := by
  have hunpin {ρ : Type} (m : W.Mnt) (r : ρ) : (act (.unpin m) >>= fun _ => pure r).Only Q :=
    (only_act hQ (by simp)).bind fun _ => trivial
  unfold vfsRename
  split
  · apply only_onMount hQ
    · intro res
      trivial
    · intro m relFrom
      apply (only_mountFs hQ m).bind
      intro fs
      cases fs.fsOp.bind (·.rename) with
      | none => exact hunpin m _
      | some _ =>
        apply only_onMount hQ
        · intro res
          exact hunpin m _
        · intro mTo relTo
          by_cases hother : mTo ≠ m
          · simp only [if_pos hother]
            exact (only_act hQ (by simp)).bind fun _ => hunpin mTo _
          · simp only [if_neg hother]
            refine ⟨hreq m relFrom relTo,fun ans => ?_⟩
            exact (only_act hQ (by simp)).bind fun _ => hunpin mTo _
  · trivial

end Only

/-- An operation makes no request but those it can lead to. -/
theorem Op.prog_only {Q : Action W → Prop} (op : Op W)
    (hQ : ∀ x : Action W,(∀ m req,x ≠ .fsCall m req) → Q x)
    (hreq : ∀ m req,op.Requests m req → Q (.fsCall m req)) : op.prog.Only Q := by
  cases op with
  | open_ name flags mode => exact only_vfsOpen hQ name flags mode
  | close fd => exact only_vfsClose hQ fd
  | fstat fd buf => exact (only_vfsFstat hQ fd buf).map _
  | lseek fd off whence => exact only_vfsLseek hQ fd off whence
  | read fd dest count => exact (only_vfsRead hQ fd dest count).map _
  | write fd src => exact only_vfsWrite hQ fd src
  | fsync fd => exact only_vfsFsync hQ fd
  | opendir dirp dirname => exact only_vfsOpendir hQ dirp dirname
  | readdir dirp entry => exact (only_vfsReaddir hQ dirp entry).map _
  | closedir dirp => exact only_vfsClosedir hQ dirp
  | format mountp => exact only_vfsFormat hQ fun m hm => hreq m .format ⟨hm,rfl⟩
  | mount mountp => exact only_act hQ (by simp)
  | umount mountp force => exact only_vfsUmount hQ mountp force
  | rename fromPath toPath =>
    exact only_vfsRename hQ (fun m relFrom relTo => hreq m (.rename relFrom relTo) trivial) _ _
  | unlink name =>
    cases name with
    | none => trivial
    | some name => exact (only_vfsPathOp hQ EROFS (fun m p => hreq m (.unlink p) trivial) name).map _
  | mkdir name mode =>
    cases name with
    | none => trivial
    | some name =>
      exact (only_vfsPathOp hQ ENOTSUP (fun m p => hreq m (.mkdir p mode) trivial) name).map _
  | rmdir name =>
    cases name with
    | none => trivial
    | some name => exact (only_vfsPathOp hQ ENOTSUP (fun m p => hreq m (.rmdir p) trivial) name).map _
  | stat path buf =>
    apply Prog.Only.map
    unfold vfsStat
    split
    · exact (only_vfsPathOp hQ EPERM (fun m p => hreq m (.stat p) trivial) _).bind fun _ => trivial
    · trivial

end UcVfs
