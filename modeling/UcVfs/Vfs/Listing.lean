import UcVfs.Vfs.Resolution

/-!
# Listing a directory

One `vfs_opendir`, and `vfs_readdir` on the DIR object until it returns 0. Every `vfs_readdir`
is given a record of its own, with whatever it holds.
-/

namespace UcVfs

open Framework

variable {W : World}

/-- `vfs_readdir` until it returns 0, and the records that the calls with result 1 leave. -/
inductive Listing (tcb : W.Task) (dirp : W.Dir) (records : ℕ → Dirent) :
    ℕ → State W → List Dirent → Prop
  | done {i s e s'}
      (hrun : (vfsReaddir (some dirp) (some (records i))).run (Action.exec tcb) s =
        some ((0,e),s')) : Listing tcb dirp records i s []
  | entry {i s e s' out}
      (hrun : (vfsReaddir (some dirp) (some (records i))).run (Action.exec tcb) s =
        some ((1,some e),s'))
      (hrest : Listing tcb dirp records (i + 1) s' out) :
      Listing tcb dirp records i s (e :: out)

theorem Listing.unique {tcb : W.Task} {dirp : W.Dir} {records : ℕ → Dirent} {i : ℕ} {s : State W}
    {out out' : List Dirent} (h : Listing tcb dirp records i s out)
    (h' : Listing tcb dirp records i s out') : out = out' := by
  induction h generalizing out' with
  | done hrun =>
    cases h' with
    | done _ => rfl
    | entry hrun' _ =>
      rw [hrun] at hrun'
      exact absurd (congrArg (·.map (·.1.1)) hrun') (by simp)
  | entry hrun _ ih =>
    cases h' with
    | done hrun' =>
      rw [hrun] at hrun'
      exact absurd (congrArg (·.map (·.1.1)) hrun') (by simp)
    | entry hrun' hrest' =>
      rw [hrun] at hrun'
      cases hrun'
      rw [ih hrest']

/-- `d_name` is a NUL-terminated string, and this one. -/
def Dirent.Reads (e : Dirent) (name : List Char) : Prop :=
  nul ∈ e.name ∧ e.name.takeWhile (· ≠ nul) = name

/-- A `char[VFS_NAME_MAX + 1]`. -/
def Dirent.Sized (e : Dirent) : Prop := e.name.length = VFS_NAME_MAX + 1

/-- The directory can be opened, and every listing gives each of the names once, cut to what a
record can hold, and nothing else. -/
def ListsExactly (tcb : W.Task) (dirp : W.Dir) (dirname : CStr) (s : State W)
    (names : List (List Char)) : Prop :=
  ∃ s',(vfsOpendir (some dirp) (some dirname)).run (Action.exec tcb) s = some (0,s') ∧
    ∀ records : ℕ → Dirent,(∀ i,(records i).Sized) →
      ∃ out texts,Listing tcb dirp records 0 s' out ∧ List.Forall₂ Dirent.Reads out texts ∧
        texts.Perm (names.map (List.take VFS_NAME_MAX))

section Strncpy

variable {dst src : List Char} {n : ℕ}

/-- A string that is shorter than the bound arrives with its terminator. -/
theorem strncpy_reads (h : (src.takeWhile (· ≠ nul)).length < n) (ino : ℕ) :
    (⟨ino,strncpy dst src n⟩ : Dirent).Reads (src.takeWhile (· ≠ nul)) := by
  have hchars : ∀ c ∈ src.takeWhile (· ≠ nul),decide (c ≠ nul) := by
    intro c hc
    exact List.all_eq_true.mp List.all_takeWhile c hc
  have htake : (src.takeWhile (· ≠ nul)).take n = src.takeWhile (· ≠ nul) :=
    List.take_of_length_le h.le
  obtain ⟨k,hk⟩ : ∃ k,n - (src.takeWhile (· ≠ nul)).length = k + 1 :=
    Nat.exists_eq_succ_of_ne_zero (Nat.sub_ne_zero_of_lt h)
  simp only [Dirent.Reads,strncpy,htake,hk,List.replicate_succ]
  constructor
  · simp
  · rw [List.append_assoc,List.takeWhile_append_of_pos hchars]
    simp

/-- A string that reaches the bound arrives without one. -/
theorem strncpy_unterminated (h : n ≤ (src.takeWhile (· ≠ nul)).length) (hdst : nul ∉ dst.drop n)
    (ino : ℕ) (name : List Char) : ¬(⟨ino,strncpy dst src n⟩ : Dirent).Reads name := by
  intro hreads
  have hlen : ((src.takeWhile (· ≠ nul)).take n).length = n := List.length_take_of_le h
  rcases List.mem_append.mp hreads.1 with hmem | hmem
  · simp only [hlen,Nat.sub_self,List.replicate_zero,List.append_nil] at hmem
    have hne := List.all_eq_true.mp List.all_takeWhile nul (List.mem_of_mem_take hmem)
    simp at hne
  · exact hdst hmem

end Strncpy

section Runs

variable {s : State W} {tcb : W.Task} {dirp : W.Dir} {dOp : DirOps W}

/-- `vfs_opendir` on a mount point opens "/" of the driver. -/
theorem vfsOpendir_run (dirp : W.Dir) {dirname relPath : CStr} {m : W.Mnt}
    (hsel : Selects tcb s dirname m relPath)
    (hroot : relPath.chars = [] ∨ relPath = CStr.root) {fs : FileSystem W}
    (hfs : (s.mounts m).fs = some fs) (hops : fs.dOp = some dOp)
    {opendir : CStr → DirView W → W.Drv → DirAns W} (hopen : dOp.opendir = some opendir)
    {ans : DirAns W} (hans : opendir CStr.root ⟨some m,W.zeroed⟩ s.drv = ans) (hres : 0 ≤ ans.res) :
    ∃ s',(vfsOpendir (some dirp) (some dirname)).run (Action.exec tcb) s = some (0,s') ∧
      s'.dirs dirp = ⟨some dOp,some m,ans.priv⟩ ∧ s'.drv = ans.drv := by
  have hget : (Action.fs m).exec tcb (s.pin m) = some (some fs,s.pin m) := by
    simp [Action.exec,State.pin,State.modifyMount,hfs]
  have hpath : (if relPath.at_ 0 = nul then CStr.root else relPath) = CStr.root := by
    cases hroot with
    | inl hempty => simp [CStr.at_,hempty]
    | inr hroot => simp [hroot]
  set s₁ := (s.pin m).setDir dirp ⟨some dOp,some m,W.zeroed⟩ with hs₁
  have hself : s₁.dirs dirp = ⟨some dOp,some m,W.zeroed⟩ := by simp [hs₁,State.setDir]
  have hinit : (Action.initDir dirp m dOp).exec tcb (s.pin m) = some ((),s₁) := rfl
  have hcall : (Action.dirCall dirp (.opendir CStr.root)).exec tcb s₁ =
      some (dirCallback dirp (.opendir CStr.root) (opendir CStr.root) s₁) := by
    simp [Action.exec,hself,DirOps.callback,hopen]
  have hdrv : opendir CStr.root ⟨some m,W.zeroed⟩ s₁.drv = ans := hans
  refine ⟨(dirCallback dirp (.opendir CStr.root) (opendir CStr.root) s₁).2,?_,?_,?_⟩
  · have hneg : ¬ans.res < 0 := by omega
    simp only [vfsOpendir,Prog.run_bind hsel,mountFs,act,Prog.act_bind,Prog.step_bind,
      Prog.run_step hget,Prog.pure_eq,Prog.ret_bind,hops,Prog.run_step hinit,hopen,
      Option.isSome_some,if_true]
    rw [hpath,Prog.run_step hcall]
    simp [dirCallback,hself,DirObj.view,hdrv,hneg,Prog.run]
  · simp [dirCallback,State.setDir,State.returned,hself,DirObj.view,hdrv]
  · simp [dirCallback,State.setDir,State.returned,hself,DirObj.view,hdrv]

/-- `vfs_readdir` passes on what the driver answers. -/
theorem vfsReaddir_run {mp : Option W.Mnt} {priv : W.Priv}
    (hdir : s.dirs dirp = ⟨some dOp,mp,priv⟩)
    {readdir : Dirent → DirView W → W.Drv → DirAns W} (hread : dOp.readdir = some readdir)
    {entry : Dirent} {ans : DirAns W} (hans : readdir entry ⟨mp,priv⟩ s.drv = ans) :
    ∃ s',(vfsReaddir (some dirp) (some entry)).run (Action.exec tcb) s =
        some ((ans.res,some ans.entry),s') ∧
      s'.dirs dirp = ⟨some dOp,mp,ans.priv⟩ ∧ s'.drv = ans.drv := by
  have hget : (Action.dir dirp).exec tcb s = some (s.dirs dirp,s) := rfl
  have hcall : (Action.dirCall dirp (.readdir entry)).exec tcb s =
      some (dirCallback dirp (.readdir entry) (readdir entry) s) := by
    simp [Action.exec,hdir,DirOps.callback,hread]
  refine ⟨(dirCallback dirp (.readdir entry) (readdir entry) s).2,?_,?_,?_⟩
  · simp only [vfsReaddir,act,Prog.act_bind,Prog.run_step hget,hdir,Option.bind_some,hread,
      Prog.run_step hcall]
    simp [dirCallback,hdir,DirObj.view,hans,Prog.run]
  · simp [dirCallback,State.setDir,State.returned,hdir,DirObj.view,hans]
  · simp [dirCallback,State.setDir,State.returned,hdir,DirObj.view,hans]

end Runs

/-- A listing of a directory object that stands before the entries `bs`. -/
theorem listing_of_entries {β : Type} {At : List β → State W → Prop} {tcb : W.Task} {dirp : W.Dir}
    {store : Dirent → β → Dirent}
    (hend : ∀ s e,At [] s →
      ∃ e' s',(vfsReaddir (some dirp) (some e)).run (Action.exec tcb) s = some ((0,e'),s'))
    (hmore : ∀ s e b bs,At (b :: bs) s →
      ∃ s',(vfsReaddir (some dirp) (some e)).run (Action.exec tcb) s =
        some ((1,some (store e b)),s') ∧ At bs s')
    {records : ℕ → Dirent} (hsized : ∀ i,(records i).Sized) {bs : List β} {s : State W}
    (hat : At bs s) (i : ℕ) :
    ∃ out,Listing tcb dirp records i s out ∧
      List.Forall₂ (fun e b => ∃ e₀ : Dirent,e₀.Sized ∧ e = store e₀ b) out bs := by
  induction bs generalizing s i with
  | nil =>
    obtain ⟨e',s',hrun⟩ := hend s (records i) hat
    exact ⟨[],.done hrun,.nil⟩
  | cons b bs ih =>
    obtain ⟨s',hrun,hat'⟩ := hmore s (records i) b bs hat
    obtain ⟨out,hlist,hall⟩ := ih hat' (i + 1)
    exact ⟨store (records i) b :: out,.entry hrun hlist,.cons ⟨records i,hsized i,rfl⟩ hall⟩

end UcVfs
