import UcVfs.Fatfs.DirVolume
import UcVfs.Fatfs.PathOps

/-!
# The status of an open file

`_fstat` does not look at the descriptor: it looks up the path that the buffer of the mount
holds, which every operation with a path overwrites.
-/

namespace UcVfs

open Framework

variable {Mnt : Type} {ff : FatFs Mnt}

/-- A driver function on an open file. -/
inductive FileOp
  | read (nbytes : Nat)
  | write (src : List UInt8)
  | lseek (off whence : Int)
  | fsync
  | fstat
  | close
  deriving DecidableEq

/-- What remains of the descriptor. -/
def FileOp.prog (m : Mnt) (fd : FatfsFileDesc ff.Fil) : FileOp → FatProg ff (FatfsFileDesc ff.Fil)
  | read nbytes => Prod.snd <$> Fatfs.read fd nbytes
  | write src => Prod.snd <$> Fatfs.write fd src
  | lseek off whence => Prod.snd <$> Fatfs.lseek fd off whence
  | fsync => Prod.snd <$> Fatfs.fsync fd
  | fstat => (fun _ => fd) <$> Fatfs.fstat m Stat.zero
  | close => Prod.snd <$> Fatfs.close fd

/-- What may happen on a mount while a descriptor is open: an operation with a path, one on
another descriptor, one on the descriptor itself, or one on an open directory. -/
inductive MountOp (ff : FatFs Mnt)
  | path (op : PathOp ff)
  | other (fd : FatfsFileDesc ff.Fil) (op : FileOp)
  | own (op : FileOp) (hop : op ≠ .close)
  | readdir (dir : ff.Dir) (entry : Dirent)
  | closedir (dir : ff.Dir)

namespace MountOp

/-- The name that was built last, after `name`. -/
def lastName : CStr → List (MountOp ff) → CStr
  | name,[] => name
  | _,path op :: ops => lastName op.name ops
  | name,_ :: ops => lastName name ops

variable [DecidableEq Mnt]

def exec (m : Mnt) : MountOp ff → FatfsFileDesc ff.Fil × FatState ff →
    Option (FatfsFileDesc ff.Fil × FatState ff)
  | path op,(fd,s) => ((op.prog m).run FatAct.exec { s with calls := [] }).map fun v => (fd,v.2)
  | other fd' op,(fd,s) => ((op.prog m fd').run FatAct.exec s).map fun v => (fd,v.2)
  | own op _,(fd,s) => (op.prog m fd).run FatAct.exec s
  | readdir dir entry,(fd,s) => ((Fatfs.readdir dir entry).run FatAct.exec s).map fun v => (fd,v.2)
  | closedir dir,(fd,s) => ((Fatfs.closedir dir).run FatAct.exec s).map fun v => (fd,v.2)

def execAll (m : Mnt) (ops : List (MountOp ff)) (v : FatfsFileDesc ff.Fil × FatState ff) :
    Option (FatfsFileDesc ff.Fil × FatState ff) :=
  ops.foldlM (fun v op => op.exec m v) v

end MountOp

namespace FatState

/-- The path of a name on the mount. -/
def pathOf (s : FatState ff) (m : Mnt) (name : CStr) : CStr := (s.descs m).builtPath name

/-- The file is marked read-only. -/
def ReadOnly (s : FatState ff) (path : CStr) : Prop :=
  (ff.stat path s.sys).1.2.fattrib &&& AM_RDO ≠ 0

/-- The buffer of the mount holds the path of a name. -/
structure Holds (s : FatState ff) (m : Mnt) (name : CStr) : Prop where
  length : (s.descs m).absPathStrBuff.length = FATFS_MAX_ABS_PATH_SIZE
  path : (s.descs m).absPath = s.pathOf m name

variable [DecidableEq Mnt]

/-- What `vfs_fstat` answers, with the record. -/
def fstat (s : FatState ff) (m : Mnt) : Option (Int × Stat) :=
  ((Fatfs.fstat m Stat.zero).run FatAct.exec s).map Prod.fst

/-- What `vfs_lseek(fd, 0, SEEK_END)` would answer. -/
def seekEnd (s : FatState ff) (fd : FatfsFileDesc ff.Fil) : Option Int :=
  ((Fatfs.lseek fd 0 SEEK_END).run FatAct.exec s).map fun v => v.1.1

end FatState

def S_IFMT : Nat := 0o170000

/-- The permission bits for writing. -/
def S_IWALL : Nat := S_IWUSR ||| S_IWGRP ||| S_IWOTH

/-- `vfs_fstat` succeeds and reports the length of the descriptor's file, a regular file, and
permission to write exactly when the file under `name` is not read-only. -/
def DescribesFile [DecidableEq Mnt] (s : FatState ff) (m : Mnt) (name : CStr)
    (fd : FatfsFileDesc ff.Fil) : Prop :=
  ∃ st,s.fstat m = some (0,st) ∧ s.seekEnd fd = some st.size ∧ st.mode &&& S_IFMT = S_IFREG ∧
    (st.mode &&& S_IWALL = S_IWALL ↔ ¬s.ReadOnly (s.pathOf m name)) ∧
    (st.mode &&& S_IWALL = 0 ↔ s.ReadOnly (s.pathOf m name))

theorem FatState.Holds.congr {s s' : FatState ff} {m : Mnt} {name : CStr} (h : s.Holds m name)
    (hdescs : s'.descs = s.descs) : s'.Holds m name where
  length := by rw [hdescs]; exact h.length
  path := by
    have hpath := h.path
    simp only [FatState.pathOf] at hpath ⊢
    rw [hdescs,hpath]

section Runs

variable [DecidableEq Mnt]

theorem fstat_run (s : FatState ff) (m : Mnt) (buf : Stat) :
    ∃ s',(Fatfs.fstat m buf).run FatAct.exec s =
        some (let v := (ff.stat (s.descs m).absPath s.sys).1
          (fatfsErrToErrno v.1,if v.1 = .ok then { Fatfs.statOf v.2 with ino := buf.ino } else buf),
          s') ∧
      s'.descs = s.descs := by
  refine ⟨s.called (.stat (s.descs m).absPath) (ff.stat (s.descs m).absPath s.sys).2,?_,rfl⟩
  simp only [Fatfs.fstat,Prog.act_bind,Prog.run,FatAct.exec]
  by_cases hres : (ff.stat (s.descs m).absPath s.sys).1.1 = .ok
  · rw [if_neg (not_not.mpr hres),if_pos hres]
    rfl
  · rw [if_pos hres,if_neg hres]
    rfl

/-- A driver function on an open file leaves the buffers alone. -/
theorem FileOp.run_descs (m : Mnt) (op : FileOp) (fd : FatfsFileDesc ff.Fil) (s : FatState ff) :
    ∃ fd' s',(op.prog m fd).run FatAct.exec s = some (fd',s') ∧ s'.descs = s.descs := by
  have hseek : ∀ pos,∃ fd' s',(Prod.snd <$> Fatfs.seekTo fd pos).run FatAct.exec s =
      some (fd',s') ∧ s'.descs = s.descs := by
    intro pos
    simp only [Fatfs.seekTo,Prog.act_bind,Prog.step_map,Prog.run,FatAct.exec]
    split
    · exact ⟨_,_,rfl,rfl⟩
    · exact ⟨_,_,rfl,rfl⟩
  cases op with
  | read nbytes =>
    simp only [FileOp.prog,Fatfs.read,Prog.act_bind,Prog.step_map,Prog.run,FatAct.exec]
    split
    · exact ⟨_,_,rfl,rfl⟩
    · exact ⟨_,_,rfl,rfl⟩
  | write src =>
    simp only [FileOp.prog,Fatfs.write,Prog.act_bind,Prog.step_map,Prog.run,FatAct.exec]
    split
    · exact ⟨_,_,rfl,rfl⟩
    · exact ⟨_,_,rfl,rfl⟩
  | lseek off whence =>
    simp only [FileOp.prog,Fatfs.lseek]
    split
    · exact hseek _
    · split
      · exact hseek _
      · split
        · exact hseek _
        · exact ⟨_,_,rfl,rfl⟩
  | fsync => exact ⟨_,_,rfl,rfl⟩
  | fstat =>
    simp only [FileOp.prog,Fatfs.fstat,Prog.act_bind,Prog.step_map,Prog.run,FatAct.exec]
    split
    · exact ⟨_,_,rfl,rfl⟩
    · exact ⟨_,_,rfl,rfl⟩
  | close => exact ⟨_,_,rfl,rfl⟩

theorem PathOp.run_holds (m : Mnt) (op : PathOp ff) {s : FatState ff}
    (hbuf : (s.descs m).absPathStrBuff.length = FATFS_MAX_ABS_PATH_SIZE) :
    ∃ r s',(op.prog m).run FatAct.exec { s with calls := [] } = some (r,s') ∧
      s'.Holds m op.name := by
  obtain ⟨r,s',hrun,hgood⟩ := op.run_good m (s := { s with calls := [] }) hbuf rfl
  refine ⟨r,s',hrun,hgood.length,?_⟩
  rw [hgood.built rfl]
  exact FatfsDesc.builtPath_congr hgood.length hbuf op.name

/-- One operation: the buffer holds the last path, whatever else happens. -/
theorem MountOp.exec_holds {m : Mnt} (op : MountOp ff) (fd : FatfsFileDesc ff.Fil)
    {s : FatState ff} {name : CStr} (h : s.Holds m name) :
    ∃ fd' s',op.exec m (fd,s) = some (fd',s') ∧ s'.Holds m (lastName name [op]) := by
  cases op with
  | path op =>
    obtain ⟨r,s',hrun,hs'⟩ := op.run_holds m h.length
    exact ⟨fd,s',by simp [exec,hrun],hs'⟩
  | other fd' op =>
    obtain ⟨fd₁,s',hrun,hdescs⟩ := op.run_descs m fd' s
    exact ⟨fd,s',by simp [exec,hrun],h.congr hdescs⟩
  | own op hop =>
    obtain ⟨fd₁,s',hrun,hdescs⟩ := op.run_descs m fd s
    exact ⟨fd₁,s',hrun,h.congr hdescs⟩
  | readdir dir entry =>
    simp only [exec,Fatfs.readdir,Prog.act_bind,Prog.run,FatAct.exec]
    split
    · split
      · exact ⟨_,_,rfl,h.congr rfl⟩
      · exact ⟨_,_,rfl,h.congr rfl⟩
    · exact ⟨_,_,rfl,h.congr rfl⟩
  | closedir dir => exact ⟨_,_,rfl,h.congr rfl⟩

omit [DecidableEq Mnt] in
theorem MountOp.lastName_cons (name : CStr) (op : MountOp ff) (ops : List (MountOp ff)) :
    lastName name (op :: ops) = lastName (lastName name [op]) ops := by
  cases op <;> rfl

theorem MountOp.execAll_holds {m : Mnt} (ops : List (MountOp ff)) (fd : FatfsFileDesc ff.Fil)
    {s : FatState ff} {name : CStr} (h : s.Holds m name) :
    ∃ fd' s',execAll m ops (fd,s) = some (fd',s') ∧ s'.Holds m (lastName name ops) := by
  induction ops generalizing fd s name with
  | nil => exact ⟨fd,s,rfl,h⟩
  | cons op ops ih =>
    obtain ⟨fd₁,s₁,hexec,h₁⟩ := op.exec_holds fd h
    obtain ⟨fd',s',hall,h'⟩ := ih fd₁ h₁
    refine ⟨fd',s',?_,?_⟩
    · simp only [execAll,List.foldlM_cons,hexec,Option.bind_eq_bind,Option.bind_some]
      exact hall
    · rw [lastName_cons]
      exact h'

/-- The type that `_fstat` reports. -/
theorem statOf_type (fi : FilInfo) :
    (Fatfs.statOf fi).mode &&& S_IFMT = S_IFREG ↔ fi.fattrib &&& AM_DIR = 0 := by
  simp only [Fatfs.statOf]
  by_cases hdir : fi.fattrib &&& AM_DIR = 0 <;> by_cases hrdo : fi.fattrib &&& AM_RDO = 0 <;>
    simp [hdir,hrdo] <;> decide

/-- The permission to write is reported for a file that is read-only, and for no other. -/
theorem statOf_write (fi : FilInfo) :
    ((Fatfs.statOf fi).mode &&& S_IWALL = S_IWALL ↔ fi.fattrib &&& AM_RDO ≠ 0) ∧
      ((Fatfs.statOf fi).mode &&& S_IWALL = 0 ↔ fi.fattrib &&& AM_RDO = 0) := by
  simp only [Fatfs.statOf]
  by_cases hdir : fi.fattrib &&& AM_DIR = 0 <;> by_cases hrdo : fi.fattrib &&& AM_RDO = 0 <;>
    simp only [hdir,hrdo,ne_eq,not_true_eq_false,not_false_eq_true,if_true,if_false,iff_true,
      iff_false] <;> decide

/-- What `_fstat` says is about whatever file the path in the buffer leads to. -/
theorem FatState.Holds.describesFile {s : FatState ff} {m : Mnt} {last : CStr}
    (h : s.Holds m last) (name : CStr) (fd : FatfsFileDesc ff.Fil) :
    DescribesFile s m name fd ↔ ∃ fi,(ff.stat (s.pathOf m last) s.sys).1 = (.ok,fi) ∧
      fi.fattrib &&& AM_DIR = 0 ∧ s.seekEnd fd = some (Fatfs.toOff fi.fsize) ∧
      (fi.fattrib &&& AM_RDO ≠ 0 ↔ ¬s.ReadOnly (s.pathOf m name)) := by
  obtain ⟨s',hrun,-⟩ := fstat_run s m Stat.zero
  rw [h.path] at hrun
  generalize hv : (ff.stat (s.pathOf m last) s.sys).1 = v at hrun
  obtain ⟨res,fi⟩ := v
  have hfstat : s.fstat m = some (fatfsErrToErrno res,
      if res = .ok then { Fatfs.statOf fi with ino := Stat.zero.ino } else Stat.zero) := by
    simp only [FatState.fstat,hrun,Option.map_some]
  constructor
  · intro hdesc
    obtain ⟨st,hst,hend,htype,hwrite,hnone⟩ := hdesc
    rw [hfstat,Option.some.injEq,Prod.mk.injEq,fatfsErrToErrno_eq_zero] at hst
    obtain ⟨rfl,rfl⟩ := hst
    rw [if_pos rfl] at hend htype hwrite
    refine ⟨fi,rfl,(statOf_type fi).mp htype,?_,(statOf_write fi).1.symm.trans hwrite⟩
    simpa only [Fatfs.statOf] using hend
  · rintro ⟨fi',heq,hdir,hend,hrdo⟩
    obtain ⟨rfl,rfl⟩ := Prod.mk.inj heq
    refine ⟨_,hfstat,?_,?_,?_,?_⟩
    · rw [if_pos rfl]
      simpa only [Fatfs.statOf] using hend
    · rw [if_pos rfl]
      exact (statOf_type fi).mpr hdir
    · rw [if_pos rfl]
      exact (statOf_write fi).1.trans hrdo
    · rw [if_pos rfl]
      exact (statOf_write fi).2.trans (not_iff_not.mp hrdo)

/-- Looking up the descriptor's own path, `_fstat` says the opposite about writing. -/
theorem FatState.Holds.not_describesFile {s : FatState ff} {m : Mnt} {name : CStr}
    (h : s.Holds m name) (fd : FatfsFileDesc ff.Fil) : ¬DescribesFile s m name fd := by
  rw [h.describesFile]
  rintro ⟨fi,hstat,-,-,hrdo⟩
  rw [FatState.ReadOnly,hstat] at hrdo
  exact iff_not_self hrdo

/-- `vfs_fstat` describes the file of a descriptor exactly when the path of the last operation
with one leads to a regular file of the same length that is read-only when this one is not. -/
theorem fstat_describes (m : Mnt) (name : CStr) (flags : Nat) (ops : List (MountOp ff))
    {s₀ : FatState ff} (hbuf : (s₀.descs m).absPathStrBuff.length = FATFS_MAX_ABS_PATH_SIZE) :
    ∃ r fd₁ s₁ fd s,
      (Fatfs.open_ m ⟨ff.zeroFil,[]⟩ name flags).run FatAct.exec s₀ = some ((r,fd₁),s₁) ∧
      MountOp.execAll m ops (fd₁,s₁) = some (fd,s) ∧
      (DescribesFile s m name fd ↔
        ∃ fi,(ff.stat (s.pathOf m (MountOp.lastName name ops)) s.sys).1 = (.ok,fi) ∧
          fi.fattrib &&& AM_DIR = 0 ∧ s.seekEnd fd = some (Fatfs.toOff fi.fsize) ∧
          (fi.fattrib &&& AM_RDO ≠ 0 ↔ ¬s.ReadOnly (s.pathOf m name))) := by
  let s₁ : FatState ff :=
    { s₀ with descs := Function.update s₀.descs m ((s₀.descs m).buildAbsPath name) }
  have hlen : (s₁.descs m).absPathStrBuff.length = FATFS_MAX_ABS_PATH_SIZE := by
    simpa [s₁,FatfsDesc.buildAbsPath_length] using hbuf
  have hholds : s₁.Holds m name := by
    refine ⟨hlen,?_⟩
    have hsame := FatfsDesc.builtPath_congr hbuf hlen name
    rw [FatState.pathOf,hsame]
    simp [s₁,FatfsDesc.builtPath]
  let v := ff.open_ (s₁.descs m).absPath (Fatfs.openFlags flags) ff.zeroFil s₁.sys
  let s₂ := s₁.called (.open_ (s₁.descs m).absPath (Fatfs.openFlags flags)) v.2.2
  have hopen : (Fatfs.open_ m ⟨ff.zeroFil,[]⟩ name flags).run FatAct.exec s₀ =
      some ((fatfsErrToErrno v.1,⟨v.2.1,strncpy [] (s₁.descs m).absPathStrBuff VFS_NAME_MAX⟩),s₂) :=
    rfl
  have hholds₂ : s₂.Holds m name := hholds.congr rfl
  obtain ⟨fd,s,hall,hlast⟩ := MountOp.execAll_holds ops ⟨v.2.1,_⟩ hholds₂
  exact ⟨_,_,s₂,fd,s,hopen,hall,hlast.describesFile name fd⟩

end Runs

/-- A mounted volume with a file of three bytes and a read-only file. -/
def servedMount : FatState ((dirCore followPlain).fatFs Unit) where
  descs _ := ⟨0,0,List.replicate FATFS_MAX_ABS_PATH_SIZE nul⟩
  workMtx := 0
  sys :=
    { fatDisk := some ⟨0,Nat.zero_lt_two⟩
      disks := fun _ => some fun name =>
        if name = ['f'] then some ⟨AM_ARC,3,[1,2,3]⟩
        else if name = ['r'] then some ⟨AM_ARC ||| AM_RDO,3,[1,2,3]⟩
        else none
      fatFs := some ()
      fsid := 1
      record := fun _ => ⟨some .fat12,1,()⟩ }
  calls := []

/-- After the read-only file was looked at, the other one is described right. -/
theorem fstat_describes_served :
    let name := CStr.ofList ['f']
    let ops : List (MountOp ((dirCore followPlain).fatFs Unit)) :=
      [.path (.stat (CStr.ofList ['r']) Stat.zero)]
    ∃ r fd₁ s₁ fd s,
      (Fatfs.open_ () ⟨((dirCore followPlain).fatFs Unit).zeroFil,[]⟩ name O_RDWR).run FatAct.exec
        servedMount = some ((r,fd₁),s₁) ∧
      MountOp.execAll () ops (fd₁,s₁) = some (fd,s) ∧
      (DescribesFile s () name fd ↔
        ∃ fi,(((dirCore followPlain).fatFs Unit).stat
            (s.pathOf () (MountOp.lastName name ops)) s.sys).1 = (.ok,fi) ∧
          fi.fattrib &&& AM_DIR = 0 ∧ s.seekEnd fd = some (Fatfs.toOff fi.fsize) ∧
          (fi.fattrib &&& AM_RDO ≠ 0 ↔ ¬s.ReadOnly (s.pathOf () name))) :=
  fstat_describes () _ _ _ rfl

/-- Straight after the open of a file that is not read-only, no permission to write is
reported; after a `mkdir`, the new directory is described. -/
theorem fstat_misreports :
    let file : FatfsFileDesc ((dirCore followPlain).fatFs Unit).Fil :=
      ⟨((dirCore followPlain).fatFs Unit).zeroFil,[]⟩
    let opened := (Fatfs.open_ () file (CStr.ofList ['f']) O_RDWR).run FatAct.exec servedMount
    let answer (ops : List (MountOp ((dirCore followPlain).fatFs Unit))) :=
      (opened.bind fun v => MountOp.execAll () ops (v.1.2,v.2)).bind fun v =>
        (v.2.fstat ()).map fun a => (a.1,a.2.mode,a.2.size)
    opened.any (fun v => v.1.1 = 0) ∧
    answer [] = some (0,S_IFREG ||| (S_IRUSR ||| S_IRGRP ||| S_IROTH),3) ∧
    answer [.path (.mkdir (CStr.ofList ['d']))] =
      some (0,S_IFDIR ||| (S_IRUSR ||| S_IRGRP ||| S_IROTH),0) ∧
    ∀ v,opened = some v → ¬DescribesFile v.2 () (CStr.ofList ['f']) v.1.2 := by
  intro file opened answer
  refine ⟨by decide +kernel,by decide +kernel,by decide +kernel,?_⟩
  intro v hv
  obtain rfl := Option.some.inj hv
  apply FatState.Holds.not_describesFile
  exact ⟨by decide +kernel,by decide +kernel⟩

end UcVfs
