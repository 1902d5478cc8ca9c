import UcVfs.Fatfs.FileStatus
import UcVfs.Filesystems.Drivers
import UcVfs.Vfs.Resolution

/-!
# What `vfs_stat` says

A path below a mount point, the object on the volume that it names, and the answer. FatFs and
SPIFFS are asked through `vfs_sysop_stat_from_fstat`, littlefs directly.
-/

namespace UcVfs

open Framework

/-- What a name leads to on a volume. -/
inductive VolumeObject
  | file (length : Nat)
  | dir
  deriving DecidableEq

/-- The answer to a `vfs_stat` for a name that leads there. -/
def Describes (object : Option VolumeObject) (ret : Int) (buf : Stat) : Prop :=
  match object with
  | some (.file length) => ret = 0 ∧ buf.mode &&& S_IFMT = S_IFREG ∧ buf.size = length
  | some .dir => ret = 0 ∧ buf.mode &&& S_IFMT = S_IFDIR
  | none => ret < 0 ∧ buf = Stat.zero

section VfsStat

variable {W : World} {s : State W} {tcb : W.Task} {name relPath : CStr} {m : W.Mnt}

/-- `vfs_stat` answers what the driver answers with a zeroed record. -/
theorem vfsStat_run (hsel : Selects tcb s name m relPath) {fs : FileSystem W}
    (hfs : (s.mounts m).fs = some fs) {ops : FsOps W} (hops : fs.fsOp = some ops)
    {stat : CStr → W.Mnt → W.Drv → FsAns W} (hstat : ops.stat = some stat) (buf : Stat) :
    ∃ s',(vfsStat (some name) (some buf)).run (Action.exec tcb) s =
        some (((stat relPath m s.drv).res,some (stat relPath m s.drv).stat),s') ∧
      s'.drv = (stat relPath m s.drv).drv := by
  have hfs' : ((s.pin m).mounts m).fs = some fs := by
    simp [State.pin,State.modifyMount,hfs]
  have hget : (Action.fs m).exec tcb (s.pin m) = some (some fs,s.pin m) := by
    simp [Action.exec,hfs']
  have hcallback : fs.fsCallback (.stat relPath) = some (stat relPath) := by
    simp [FileSystem.fsCallback,FsOps.callback,hops,hstat]
  have hcall : (Action.fsCall m (.stat relPath)).exec tcb (s.pin m) =
      some (fsCallback m (.stat relPath) (stat relPath) (s.pin m)) := by
    simp [Action.exec,hfs',hcallback]
  have hop : (vfsPathOp EPERM .stat name).run (Action.exec tcb) s =
      some (((stat relPath m s.drv).res,some (stat relPath m s.drv).stat),
        (fsCallback m (.stat relPath) (stat relPath) (s.pin m)).2.unpin m) := by
    simp only [vfsPathOp,act,mountFs]
    rw [Prog.run_bind hsel]
    simp only [Prog.act_bind,Prog.step_bind,Prog.run_step hget,Prog.pure_eq,Prog.ret_bind,
      hcallback,Prog.run_step hcall]
    rfl
  exact ⟨_,Prog.run_bind hop,rfl⟩

end VfsStat

/-! `vfs_sysop_stat_from_fstat` with the table of a driver. -/

namespace Driver

section Sysop

variable {h : Host} {File Dir Drv : Type} {nullPtr : File × Dir → File × Dir}
  {zeroed : File × Dir} (d : Driver h.Mnt File Dir Drv)
  (sp : Sysop (World h nullPtr zeroed Drv)) {m : h.Mnt} {path : CStr}
  {s s₁ s₂ s₃ : Drv} {file file' : File} {dir dir' : Dir} {r r₂ r₃ : Int}

/-- The mount's table, as far as `vfs_sysop_stat_from_fstat` looks at it. -/
def sysopTable : FileSystem (World h nullPtr zeroed Drv) :=
  ⟨some d.fileOps,some d.dirOps,none,0⟩

/-- The file object that it opens. -/
def sysopFile : File := (nullPtr sp.filePriv).1

/-- The DIR object in its place, after an open that failed. -/
def sysopDir (file : File) : Dir := (sp.dirPriv (file,(nullPtr sp.filePriv).2)).2

theorem sysop_file {fstat : h.Mnt → File → Stat → Drv → Option ((Int × Stat) × Drv)} {st : Stat}
    (hopen : d.open_ m (sysopFile sp) path 0 s = some ((r,file),s₁)) (hr : 0 ≤ r)
    (hfstat : d.fstat = some fstat) (hst : fstat m file Stat.zero s₁ = some ((r₂,st),s₂))
    (hclose : d.close m file s₂ = some ((r₃,file'),s₃)) :
    sp.statFromFstat m d.sysopTable path s = some ⟨r₂,st,s₃⟩ := by
  have hr' : ¬r < 0 := by omega
  simp only [sysopFile] at hopen
  simp [Sysop.statFromFstat,sysopTable,fileOps,fileAns,resOnly,hopen,hr',hfstat,hst,hclose]

theorem sysop_dir (hopen : d.open_ m (sysopFile sp) path 0 s = some ((r,file),s₁)) (hr : r < 0)
    (hopendir : d.opendir m (sysopDir sp file) path s₁ = some ((r₂,dir),s₂)) (hr₂ : 0 ≤ r₂)
    (hclosedir : d.closedir m dir s₂ = some ((r₃,dir'),s₃)) :
    sp.statFromFstat m d.sysopTable path s =
      some ⟨0,{ Stat.zero with mode := S_IFDIR },s₃⟩ := by
  have hr₂' : ¬r₂ < 0 := by omega
  simp only [sysopFile] at hopen
  simp only [sysopDir] at hopendir
  simp [Sysop.statFromFstat,Sysop.isDir,sysopTable,fileOps,fileAns,resOnly,dirOps,dirAns,hopen,hr,
    hopendir,hr₂',hclosedir]

theorem sysop_none (hopen : d.open_ m (sysopFile sp) path 0 s = some ((r,file),s₁)) (hr : r < 0)
    (hopendir : d.opendir m (sysopDir sp file) path s₁ = some ((r₂,dir),s₂)) (hr₂ : r₂ < 0) :
    sp.statFromFstat m d.sysopTable path s = some ⟨r,Stat.zero,s₂⟩ := by
  simp only [sysopFile] at hopen
  simp only [sysopDir] at hopendir
  simp [Sysop.statFromFstat,Sysop.isDir,sysopTable,fileOps,fileAns,resOnly,dirOps,dirAns,hopen,hr,
    hopendir,hr₂]

/-- The answer of the table where the driver has no `stat` of its own. -/
theorem statAns_sysop {ans : FsAns (World h nullPtr zeroed Drv)} (hstat : d.stat = none)
    (hsysop : sp.statFromFstat m d.sysopTable path s = some ans) :
    d.statAns sp path m s = ans := by
  simp only [statAns,hstat]
  exact congrArg (Option.getD · _) hsysop

end Sysop

/-- `vfs_stat` on a mount of the driver tells what the name leads to exactly where `holds` says
so, and leaves as much open as there was. -/
def StatExact {h : Host} {File Dir Drv : Type} (d : Driver h.Mnt File Dir Drv)
    (object : h.Mnt → Drv → CStr → Option VolumeObject) (opened : h.Mnt → Drv → Nat)
    (valid : h.Mnt → Drv → Prop) (holds : h.Mnt → Drv → CStr → Prop) : Prop :=
  ∀ (nullPtr : File × Dir → File × Dir) (zeroed : File × Dir)
    (sp : Sysop (World h nullPtr zeroed Drv))
    (s : State (World h nullPtr zeroed Drv)) (tcb : h.Task) (name relPath : CStr) (m : h.Mnt)
    (buf : Stat),Selects tcb s name m relPath → (s.mounts m).fs = some (d.fileSystem sp) →
      valid m s.drv →
    ((∃ ret st s',(vfsStat (some name) (some buf)).run (Action.exec tcb) s =
        some ((ret,some st),s') ∧
      Describes (object m s.drv relPath) ret st ∧ opened m s'.drv = opened m s.drv) ↔
    holds m s.drv relPath)

/-- What the driver table answers decides. -/
theorem statExact_of {h : Host} {File Dir Drv : Type} {d : Driver h.Mnt File Dir Drv}
    {object : h.Mnt → Drv → CStr → Option VolumeObject} {opened : h.Mnt → Drv → Nat}
    {valid : h.Mnt → Drv → Prop} {holds : h.Mnt → Drv → CStr → Prop}
    (hans : ∀ (nullPtr : File × Dir → File × Dir) (zeroed : File × Dir)
      (sp : Sysop (World h nullPtr zeroed Drv)) (m : h.Mnt) (path : CStr)
      (drv : Drv),valid m drv → ∃ ret st drv',d.statAns sp path m drv = ⟨ret,st,drv'⟩ ∧
        (Describes (object m drv path) ret st ∧ opened m drv' = opened m drv ↔
          holds m drv path)) : d.StatExact object opened valid holds := by
  intro nullPtr zeroed sp s tcb name relPath m buf hsel hfs hvalid
  obtain ⟨ret,st,drv',hstat,hiff⟩ := hans nullPtr zeroed sp m relPath s.drv hvalid
  obtain ⟨s',hrun,hdrv⟩ := vfsStat_run hsel hfs rfl rfl buf
  rw [← hiff]
  rw [hstat] at hrun hdrv
  constructor
  · intro h
    obtain ⟨ret',st',s₁,hrun',hdesc,hopened⟩ := h
    rw [hrun] at hrun'
    cases hrun'
    exact ⟨hdesc,by rw [← hopened,hdrv]⟩
  · intro h
    exact ⟨ret,st,s',hrun,h.1,by rw [hdrv,h.2]⟩

end Driver

/-! What the three file systems say about a path. -/

/-- How FatFs resolves paths: what a path leads to, how many objects are open, and which ones.
A regular file can be opened for reading, a directory can be listed, and nothing else. -/
structure FatFs.Resolves {Mnt : Type} (ff : FatFs Mnt) (object : ff.σ → CStr → Option VolumeObject)
    (opened : ff.σ → Nat) (isOpen : ff.Fil → ff.σ → Prop) (isListed : ff.Dir → ff.σ → Prop) :
    Prop where
  maxLength : ∀ {s path n},object s path = some (.file n) → n ≤ RAMDISK_MAX_SIZE.toNat
  openFile : ∀ {s path n} (fp : ff.Fil),object s path = some (.file n) →
    ∃ fp' s',ff.open_ path FA_READ fp s = (.ok,fp',s') ∧ object s' = object s ∧
      opened s' = opened s + 1 ∧ isOpen fp' s'
  openOther : ∀ {s path} (fp : ff.Fil),(∀ n,object s path ≠ some (.file n)) →
    ∃ res fp' s',ff.open_ path FA_READ fp s = (res,fp',s') ∧ res ≠ .ok ∧
      object s' = object s ∧ opened s' = opened s
  stat : ∀ {s path n fp},object s path = some (.file n) → isOpen fp s →
    ∃ fi s',ff.stat path s = ((.ok,fi),s') ∧ fi.fattrib &&& AM_DIR = 0 ∧ fi.fsize = n ∧
      opened s' = opened s ∧ isOpen fp s'
  close : ∀ {s fp},isOpen fp s → ∃ res fp' s',ff.close fp s = (res,fp',s') ∧
    opened s' + 1 = opened s
  opendir : ∀ {s path} (dp : ff.Dir),object s path = some .dir →
    ∃ dp' s',ff.opendir path dp s = (.ok,dp',s') ∧ opened s' = opened s + 1 ∧ isListed dp' s'
  opendirOther : ∀ {s path} (dp : ff.Dir),object s path ≠ some .dir →
    ∃ res dp' s',ff.opendir path dp s = (res,dp',s') ∧ res ≠ .ok ∧ opened s' = opened s
  closedir : ∀ {s dp},isListed dp s → ∃ res dp' s',ff.closedir dp s = (res,dp',s') ∧
    opened s' + 1 = opened s

/-- The path that a name stands for, below the root of the volume. -/
def CStr.below (name : CStr) : CStr := ⟨'/' :: name.chars,by
  intro h
  rcases List.mem_cons.mp h with he | h
  · exact absurd he (by decide)
  · exact name.noNul h⟩

def CStr.take (name : CStr) (n : Nat) : CStr :=
  ⟨name.chars.take n,fun h => name.noNul (List.mem_of_mem_take h)⟩

/-- What the buffer of a mount can hold of it. -/
def CStr.belowCut (name : CStr) : CStr := (name.take (FATFS_MAX_ABS_PATH_SIZE - 2)).below

section Fatfs

variable {Mnt : Type} [DecidableEq Mnt] {ff : FatFs Mnt}
  {object : ff.σ → CStr → Option VolumeObject} {opened : ff.σ → Nat}
  {isOpen : ff.Fil → ff.σ → Prop} {isListed : ff.Dir → ff.σ → Prop}

theorem FatfsDesc.builtPath_belowCut {d : FatfsDesc}
    (hbuf : d.absPathStrBuff.length = FATFS_MAX_ABS_PATH_SIZE) (name : CStr) :
    d.builtPath name = name.belowCut :=
  CStr.ext (d.builtPath_chars hbuf name)

theorem describes_congr {o o' : Option VolumeObject} {ret : Int} {st : Stat}
    (h : Describes o' ret st) : Describes o ret st ↔ o = o' := by
  have htypes : S_IFREG ≠ S_IFDIR := by decide
  constructor
  · intro ho
    match o,o',ho,h with
    | none,none,_,_ => rfl
    | none,some (.file _),ho,h => exact absurd ho.1 (by rw [h.1]; decide)
    | none,some .dir,ho,h => exact absurd ho.1 (by rw [h.1]; decide)
    | some (.file _),none,ho,h => exact absurd h.1 (by rw [ho.1]; decide)
    | some .dir,none,ho,h => exact absurd h.1 (by rw [ho.1]; decide)
    | some (.file n),some (.file n'),ho,h =>
      have hn : n = n' := Int.ofNat_inj.mp (ho.2.2.symm.trans h.2.2)
      rw [hn]
    | some (.file _),some .dir,ho,h => exact absurd (ho.2.1.symm.trans h.2) htypes
    | some .dir,some (.file _),ho,h => exact absurd (h.2.1.symm.trans ho.2) htypes
    | some .dir,some .dir,_,_ => rfl
  · intro ho
    rw [ho]
    exact h

/-- FatFs is given what the buffer holds of the path. -/
theorem fatfs_open_run {s : FatState ff} {m : Mnt}
    (hbuf : (s.descs m).absPathStrBuff.length = FATFS_MAX_ABS_PATH_SIZE)
    (fd : FatfsFileDesc ff.Fil) (path : CStr) {res : FResult} {fp : ff.Fil} {sys : ff.σ}
    (hopen : ff.open_ path.belowCut FA_READ fd.file s.sys = (res,fp,sys)) :
    ∃ fd' s',(Fatfs.open_ m fd path 0).run FatAct.exec s = some ((fatfsErrToErrno res,fd'),s') ∧
      fd'.file = fp ∧ s'.sys = sys ∧ (s'.descs m).absPath = path.belowCut ∧
      (s'.descs m).absPathStrBuff.length = FATFS_MAX_ABS_PATH_SIZE := by
  have hpath : ((s.descs m).buildAbsPath path).absPath = path.belowCut :=
    FatfsDesc.builtPath_belowCut hbuf path
  have hflags : Fatfs.openFlags 0 = FA_READ := by decide
  let s₁ : FatState ff :=
    { s with descs := Function.update s.descs m ((s.descs m).buildAbsPath path) }
  refine ⟨⟨fp,strncpy fd.fname ((s.descs m).buildAbsPath path).absPathStrBuff VFS_NAME_MAX⟩,
    s₁.called (.open_ path.belowCut FA_READ) sys,?_,rfl,rfl,?_,?_⟩
  · simp [Fatfs.open_,Fatfs.act,Prog.act_bind,Prog.run,FatAct.exec,hpath,hflags,hopen,s₁]
  · simp [FatState.called,s₁,hpath]
  · simp [FatState.called,s₁,FatfsDesc.buildAbsPath_length,hbuf]

theorem fatfs_opendir_run {s : FatState ff} {m : Mnt}
    (hbuf : (s.descs m).absPathStrBuff.length = FATFS_MAX_ABS_PATH_SIZE) (dir : ff.Dir)
    (path : CStr) {res : FResult} {dp : ff.Dir} {sys : ff.σ}
    (hopen : ff.opendir path.belowCut dir s.sys = (res,dp,sys)) :
    ∃ s',(Fatfs.opendir m dir path).run FatAct.exec s = some ((fatfsErrToErrno res,dp),s') ∧
      s'.sys = sys := by
  have hpath : ((s.descs m).buildAbsPath path).absPath = path.belowCut :=
    FatfsDesc.builtPath_belowCut hbuf path
  let s₁ : FatState ff :=
    { s with descs := Function.update s.descs m ((s.descs m).buildAbsPath path) }
  refine ⟨s₁.called (.opendir path.belowCut) sys,?_,rfl⟩
  simp [Fatfs.opendir,Fatfs.act,Prog.act_bind,Prog.run,FatAct.exec,hpath,hopen,s₁]

theorem fatfs_fstat_run {s : FatState ff} {m : Mnt} {path : CStr}
    (hpath : (s.descs m).absPath = path) {fi : FilInfo} {sys : ff.σ}
    (hstat : ff.stat path s.sys = ((.ok,fi),sys)) :
    (Fatfs.fstat m Stat.zero).run FatAct.exec s =
      some ((0,Fatfs.statOf fi),s.called (.stat path) sys) := by
  simp [Fatfs.fstat,Fatfs.act,Prog.act_bind,Prog.run,FatAct.exec,hpath,hstat,fatfsErrToErrno,
    Fatfs.statOf,Stat.zero]

theorem toOff_length {n : Nat} (h : n ≤ RAMDISK_MAX_SIZE.toNat) : Fatfs.toOff n = n := by
  have hmax : RAMDISK_MAX_SIZE.toNat = 524288 := by decide
  rw [Fatfs.toOff,Int.bmod_def]
  omega

end Fatfs

/-- What a path leads to, where the buffer of the mount holds all of it. -/
def fatfsObject {Mnt : Type} {ff : FatFs Mnt} (object : ff.σ → CStr → Option VolumeObject)
    (_ : Mnt) (s : FatState ff) (path : CStr) : Option VolumeObject := object s.sys path.below

theorem fatfs_statExact {h : Host} {ff : FatFs h.Mnt}
    {object : ff.σ → CStr → Option VolumeObject} {opened : ff.σ → Nat}
    {isOpen : ff.Fil → ff.σ → Prop} {isListed : ff.Dir → ff.σ → Prop}
    (hff : ff.Resolves object opened isOpen isListed) :
    (fatfsDriver ff).StatExact (fatfsObject object) (fun _ s => opened s.sys)
      (fun m s => (s.descs m).absPathStrBuff.length = FATFS_MAX_ABS_PATH_SIZE)
      (fun _ s path => object s.sys path.below = object s.sys path.belowCut) := by
  apply Driver.statExact_of
  intro nullPtr zeroed sp m path s hbuf
  suffices hans : ∃ ret st s',(fatfsDriver ff).statAns sp path m s = ⟨ret,st,s'⟩ ∧
      Describes (object s.sys path.belowCut) ret st ∧ opened s'.sys = opened s.sys by
    obtain ⟨ret,st,s',hans,hdesc,hopened⟩ := hans
    exact ⟨ret,st,s',hans,(and_iff_left hopened).trans (describes_congr hdesc)⟩
  by_cases hfile : ∃ n,object s.sys path.belowCut = some (.file n)
  · obtain ⟨n,hfile⟩ := hfile
    obtain ⟨fp,sys,hopen,hobj,hcount,hopened⟩ := hff.openFile (Driver.sysopFile sp).file hfile
    obtain ⟨fd,s₁,hrun,rfl,rfl,hpath,-⟩ := fatfs_open_run hbuf (Driver.sysopFile sp) path hopen
    rw [← hobj] at hfile
    obtain ⟨fi,sys₂,hstat,hattr,hsize,hcount₂,hopened₂⟩ := hff.stat hfile hopened
    obtain ⟨res,fp,sys₃,hclose,hcount₃⟩ := hff.close hopened₂
    have hfstat := fatfs_fstat_run hpath hstat
    have hdone : (Fatfs.close fd).run FatAct.exec (s₁.called (.stat path.belowCut) sys₂) =
        some ((fatfsErrToErrno res,{ fd with file := fp }),
          { s₁.called (.stat path.belowCut) sys₂ with sys := sys₃ }) := by
      simp [Fatfs.close,Fatfs.act,Prog.act_bind,Prog.run,FatAct.exec,FatState.called,hclose]
    have hsysop := Driver.sysop_file (fatfsDriver ff) sp hrun le_rfl rfl hfstat hdone
    refine ⟨_,_,_,Driver.statAns_sysop (fatfsDriver ff) sp rfl hsysop,?_,?_⟩
    · have hobj' := hfile
      rw [hobj] at hobj'
      rw [hobj']
      have hsize' : (Fatfs.statOf fi).size = n := by
        rw [Fatfs.statOf,hsize,toOff_length (hff.maxLength hfile)]
      exact ⟨rfl,(statOf_type fi).mpr hattr,hsize'⟩
    · show opened sys₃ = opened s.sys
      omega
  · have hother : ∀ n,object s.sys path.belowCut ≠ some (.file n) := fun n h => hfile ⟨n,h⟩
    obtain ⟨res,fp,sys,hopen,hres,hobj,hcount⟩ := hff.openOther (Driver.sysopFile sp).file hother
    obtain ⟨fd,s₁,hrun,-,rfl,-,hbuf₁⟩ := fatfs_open_run hbuf (Driver.sysopFile sp) path hopen
    have hneg := fatfsErrToErrno_neg hres
    by_cases hdir : object s.sys path.belowCut = some .dir
    · rw [hdir]
      rw [← hobj] at hdir
      obtain ⟨dp,sys₂,hopendir,hcount₂,hlisted⟩ := hff.opendir (Driver.sysopDir sp fd) hdir
      obtain ⟨s₂,hrun₂,rfl⟩ := fatfs_opendir_run hbuf₁ (Driver.sysopDir sp fd) path hopendir
      obtain ⟨res₃,dp',sys₃,hclose,hcount₃⟩ := hff.closedir hlisted
      have hdone : (Fatfs.closedir dp).run FatAct.exec s₂ =
          some ((fatfsErrToErrno res₃,dp'),{ s₂ with sys := sys₃ }) := by
        simp [Fatfs.closedir,Fatfs.act,Prog.act_bind,Prog.run,FatAct.exec,hclose]
      have hsysop := Driver.sysop_dir (fatfsDriver ff) sp hrun hneg hrun₂ le_rfl hdone
      refine ⟨_,_,_,Driver.statAns_sysop (fatfsDriver ff) sp rfl hsysop,⟨rfl,by decide⟩,?_⟩
      show opened sys₃ = opened s.sys
      omega
    · have hnone : object s.sys path.belowCut = none := by
        cases hobject : object s.sys path.belowCut with
        | none => rfl
        | some o =>
          cases o with
          | file n => exact absurd hobject (hother n)
          | dir => exact absurd hobject hdir
      rw [hnone]
      rw [← hobj] at hdir
      obtain ⟨res₂,dp,sys₂,hopendir,hres₂,hcount₂⟩ :=
        hff.opendirOther (Driver.sysopDir sp fd) hdir
      obtain ⟨s₂,hrun₂,rfl⟩ := fatfs_opendir_run hbuf₁ (Driver.sysopDir sp fd) path hopendir
      have hsysop := Driver.sysop_none (fatfsDriver ff) sp hrun hneg hrun₂ (fatfsErrToErrno_neg hres₂)
      exact ⟨_,_,_,Driver.statAns_sysop (fatfsDriver ff) sp rfl hsysop,⟨hneg,rfl⟩,hcount₂.trans hcount⟩

/-- How `lfs_stat` resolves paths. It fills in the size of a file only, and nothing when the
path leads nowhere. -/
structure LittleFs.Resolves {Mnt : Type} (lf : LittleFs Mnt)
    (object : Mnt → lf.σ → CStr → Option VolumeObject) (opened : Mnt → lf.σ → Nat) : Prop where
  statFile : ∀ {m s path n} (info : LfsInfo),object m s path = some (.file n) →
    ∃ info' s',lf.stat m path info s = ((Littlefs.LFS_ERR_OK,info'),s') ∧
      info'.type = LFS_TYPE_REG ∧ info'.size.toNat = n ∧ opened m s' = opened m s
  statDir : ∀ {m s path} (info : LfsInfo),object m s path = some .dir →
    ∃ info' s',lf.stat m path info s = ((Littlefs.LFS_ERR_OK,info'),s') ∧
      info'.type = LFS_TYPE_DIR ∧ opened m s' = opened m s
  statNone : ∀ {m s path} (info : LfsInfo),object m s path = none →
    ∃ err s',lf.stat m path info s = ((err,info),s') ∧ err < 0 ∧ opened m s' = opened m s

/-- A record that `_stat` makes nothing of. -/
def LfsInfo.Blank (info : LfsInfo) : Prop :=
  info.size = 0 ∧ info.type ≠ LFS_TYPE_REG ∧ info.type ≠ LFS_TYPE_DIR

theorem statOf_blank {info : LfsInfo} :
    Littlefs.Driver.statOf info Stat.zero = Stat.zero ↔ info.Blank := by
  have hsize : info.size = 0 ↔ (info.size.toNat : Int) = 0 := by
    rw [Int.natCast_eq_zero,← UInt32.toNat_inj]
    rfl
  rw [LfsInfo.Blank,hsize]
  by_cases hreg : info.type = LFS_TYPE_REG
  · simp [Littlefs.Driver.statOf,hreg,Stat.zero,S_IFREG]
  · by_cases hdir : info.type = LFS_TYPE_DIR
    · simp [Littlefs.Driver.statOf,hdir,Stat.zero,LFS_TYPE_REG,LFS_TYPE_DIR,S_IFDIR]
    · simp [Littlefs.Driver.statOf,hreg,hdir,Stat.zero]

section Littlefs

variable {Mnt : Type} [DecidableEq Mnt] {lf : LittleFs Mnt}

theorem littlefs_stat_run (s : LfsState lf) (m : Mnt) (path : CStr) (buf : Stat) {ret : Int}
    {info : LfsInfo} {sys : lf.σ} (hstat : lf.stat m path s.stackInfo s.sys = ((ret,info),sys)) :
    ∃ s',(Littlefs.Driver.stat m path buf).run LfsAct.exec s =
        some ((Littlefs.littlefsErrToErrno ret,Littlefs.Driver.statOf info buf),s') ∧
      s'.sys = sys := by
  refine ⟨{ s with sys := sys },?_,rfl⟩
  refine Prog.run_bind (Littlefs.Driver.locked_run (r := (ret,info)) ?_)
  have hexec : LfsAct.exec (.stat m path s.stackInfo) (Littlefs.Driver.held s m) =
      some ((ret,info),{ Littlefs.Driver.held s m with sys := sys }) := by
    simp [LfsAct.exec,LfsState.returned,Littlefs.Driver.held,LfsState.setDesc,hstat]
  exact Prog.run_step hexec

end Littlefs

theorem littlefs_statExact {h : Host} {lf : LittleFs h.Mnt} (dno : h.Mnt → UInt8)
    {object : h.Mnt → lf.σ → CStr → Option VolumeObject} {opened : h.Mnt → lf.σ → Nat}
    (hlf : lf.Resolves object opened) :
    (littlefsDriver lf dno).StatExact (fun m s => object m s.sys) (fun m s => opened m s.sys)
      (fun _ _ => True) (fun m s path => object m s.sys path = none → s.stackInfo.Blank) := by
  apply Driver.statExact_of
  intro nullPtr zeroed sp m path s _
  have hans : ∀ {ret info sys},lf.stat m path s.stackInfo s.sys = ((ret,info),sys) →
      ∃ s',(littlefsDriver lf dno).statAns sp path m s =
        ⟨Littlefs.littlefsErrToErrno ret,Littlefs.Driver.statOf info Stat.zero,s'⟩ ∧
        s'.sys = sys := by
    intro ret info sys hstat
    obtain ⟨s',hrun,hsys⟩ := littlefs_stat_run s m path Stat.zero hstat
    refine ⟨s',?_,hsys⟩
    simp only [Driver.statAns,littlefsDriver,hrun,Driver.fsAns]
  cases hobject : object m s.sys path with
  | none =>
    obtain ⟨err,sys,hstat,herr,hcount⟩ := hlf.statNone s.stackInfo hobject
    obtain ⟨s',hrun,rfl⟩ := hans hstat
    have hneg := Littlefs.littlefsErrToErrno_neg herr
    refine ⟨_,_,s',hrun,?_⟩
    constructor
    · intro hgood _
      exact statOf_blank.mp hgood.1.2
    · intro hblank
      exact ⟨⟨hneg,statOf_blank.mpr (hblank rfl)⟩,hcount⟩
  | some o =>
    have hdescribed : ∃ info sys,lf.stat m path s.stackInfo s.sys = ((Littlefs.LFS_ERR_OK,info),sys) ∧
        Describes (some o) 0 (Littlefs.Driver.statOf info Stat.zero) ∧
        opened m sys = opened m s.sys := by
      cases o with
      | file n =>
        obtain ⟨info,sys,hstat,htype,hsize,hcount⟩ := hlf.statFile s.stackInfo hobject
        refine ⟨info,sys,hstat,?_,hcount⟩
        have hmode : S_IFREG &&& S_IFMT = S_IFREG := by decide
        rw [Littlefs.Driver.statOf,if_pos htype,hsize]
        exact ⟨rfl,hmode,rfl⟩
      | dir =>
        obtain ⟨info,sys,hstat,htype,hcount⟩ := hlf.statDir s.stackInfo hobject
        refine ⟨info,sys,hstat,?_,hcount⟩
        have hreg : info.type ≠ LFS_TYPE_REG := by rw [htype]; decide
        have hmode : S_IFDIR &&& S_IFMT = S_IFDIR := by decide
        rw [Littlefs.Driver.statOf,if_neg hreg,if_pos htype]
        exact ⟨rfl,hmode⟩
    obtain ⟨info,sys,hstat,hdesc,hcount⟩ := hdescribed
    obtain ⟨s',hrun,rfl⟩ := hans hstat
    refine ⟨_,_,s',hrun,?_⟩
    exact iff_of_true ⟨hdesc,hcount⟩ (fun h => by cases h)

/-- How SPIFFS resolves names: the length of the file with a name, how many of the file
descriptors are in use, and which. Any name can be listed as a directory. -/
structure SpiffsFs.Resolves {Mnt : Type} (sp : SpiffsFs Mnt) (length : Mnt → sp.σ → CStr → Option Nat)
    (fdCount : Mnt → Nat) (opened : Mnt → sp.σ → Nat) (isOpen : Mnt → Int → CStr → sp.σ → Prop) :
    Prop where
  maxLength : ∀ {m s path n},length m s path = some n → n ≤ RAMDISK_MAX_SIZE.toNat
  openFile : ∀ {m s path n},length m s path = some n → opened m s < fdCount m →
    ∃ fh s',sp.open_ m path Spiffs.SPIFFS_O_RDONLY s = (fh,s') ∧ 0 ≤ fh ∧
      length m s' = length m s ∧ opened m s' = opened m s + 1 ∧ isOpen m fh path s'
  openFails : ∀ {m s path},length m s path = none ∨ fdCount m ≤ opened m s →
    ∃ err s',sp.open_ m path Spiffs.SPIFFS_O_RDONLY s = (err,s') ∧ err < 0 ∧
      Spiffs.spiffsErrToErrno err < 0 ∧ opened m s' = opened m s
  fstat : ∀ {m fh path s n} (stat : SpiffsStat),isOpen m fh path s → length m s path = some n →
    ∃ stat' s',sp.fstat m fh stat s = ((Spiffs.SPIFFS_OK,stat'),s') ∧ stat'.size = n ∧
      opened m s' = opened m s ∧ isOpen m fh path s'
  close : ∀ {m fh path s},isOpen m fh path s → ∃ res s',sp.close m fh s = (res,s') ∧
    opened m s' + 1 = opened m s
  opendir : ∀ (m s path) (d : sp.Dir),∃ d' s',sp.opendir m path d s = ((true,d'),s') ∧
    opened m s' = opened m s
  closedir : ∀ (m s) (d : sp.Dir),∃ res s',sp.closedir d s = (res,s') ∧ opened m s' = opened m s

/-- A name leads to a file or nowhere. -/
def spiffsObject {Mnt : Type} {sp : SpiffsFs Mnt} (length : Mnt → sp.σ → CStr → Option Nat) (m : Mnt)
    (s : SpiffsState sp) (path : CStr) : Option VolumeObject := (length m s.sys path).map .file

theorem spiffs_statExact {h : Host} {spf : SpiffsFs h.Mnt}
    {length : h.Mnt → spf.σ → CStr → Option Nat} {fdCount : h.Mnt → Nat}
    {opened : h.Mnt → spf.σ → Nat} {isOpen : h.Mnt → Int → CStr → spf.σ → Prop}
    (hsp : spf.Resolves length fdCount opened isOpen) :
    (spiffsDriver spf).StatExact (spiffsObject length) (fun m s => opened m s.sys)
      (fun _ _ => True)
      (fun m s path => (length m s.sys path).isSome ∧ opened m s.sys < fdCount m) := by
  apply Driver.statExact_of
  intro nullPtr zeroed sp m path s _
  by_cases hgood : (length m s.sys path).isSome ∧ opened m s.sys < fdCount m
  · obtain ⟨n,hlen⟩ := Option.isSome_iff_exists.mp hgood.1
    obtain ⟨fh,sys₁,hopen,hfh,hsame,hcount₁,hopened⟩ := hsp.openFile hlen hgood.2
    have hlen₁ : length m sys₁ path = some n := by rw [hsame,hlen]
    obtain ⟨stat,sys₂,hfstat,hsize,hcount₂,hopened₂⟩ := hsp.fstat s.stackStat hopened hlen₁
    obtain ⟨res,sys₃,hclose,hcount₃⟩ := hsp.close hopened₂
    have hmode : S_IFREG &&& S_IFMT = S_IFREG := by decide
    have hsize' : Int.bmod stat.size (2 ^ 32) = n := by
      rw [hsize]
      exact toOff_length (hsp.maxLength hlen)
    have hrun : (spiffsDriver spf).open_ m (Driver.sysopFile sp) path 0 s =
        some ((fh,fh),{ s with sys := sys₁ }) := by
      have hflags : Spiffs.openFlags 0 = Spiffs.SPIFFS_O_RDONLY := by decide
      simp [spiffsDriver,Spiffs.Driver.open_,Spiffs.Driver.called,hflags,hopen,hfh]
    have hst : Spiffs.Driver.fstat m fh Stat.zero { s with sys := sys₁ } =
        ((0,⟨stat.objId,S_IFREG,n,0⟩),{ s with sys := sys₂ }) := by
      rw [← hsize']
      simp [Spiffs.Driver.fstat,Spiffs.Driver.called,hfstat,Spiffs.SPIFFS_OK,
        Spiffs.spiffsErrToErrno,Stat.zero]
    have hdone : (spiffsDriver spf).close m fh { s with sys := sys₂ } =
        some ((Spiffs.spiffsErrToErrno res,fh),{ s with sys := sys₃ }) := by
      simp [spiffsDriver,Spiffs.Driver.close,Spiffs.Driver.called,Spiffs.Driver.errno,hclose]
    have hsysop := Driver.sysop_file (spiffsDriver spf) sp hrun hfh rfl (congrArg some hst)
      hdone
    refine ⟨_,_,_,Driver.statAns_sysop (spiffsDriver spf) sp rfl hsysop,?_⟩
    have hobject : spiffsObject length m s path = some (.file n) := by simp [spiffsObject,hlen]
    rw [hobject]
    refine iff_of_true ⟨⟨rfl,hmode,rfl⟩,?_⟩ hgood
    show opened m sys₃ = opened m s.sys
    omega
  · have hbad : length m s.sys path = none ∨ fdCount m ≤ opened m s.sys := by
      cases hlen : length m s.sys path with
      | none => exact .inl rfl
      | some n =>
        right
        by_contra hfree
        exact hgood ⟨by rw [hlen]; rfl,by omega⟩
    obtain ⟨err,sys₁,hopen,herr,hneg,-⟩ := hsp.openFails hbad
    obtain ⟨d,sys₂,hopendir,-⟩ := hsp.opendir m sys₁ path (Driver.sysopDir sp (Driver.sysopFile sp))
    obtain ⟨res,sys₃,hclosedir,-⟩ := hsp.closedir m sys₂ d
    have herr' : ¬0 ≤ err := by omega
    have hrun : (spiffsDriver spf).open_ m (Driver.sysopFile sp) path 0 s =
        some ((Spiffs.spiffsErrToErrno err,Driver.sysopFile sp),{ s with sys := sys₁ }) := by
      have hflags : Spiffs.openFlags 0 = Spiffs.SPIFFS_O_RDONLY := by decide
      simp [spiffsDriver,Spiffs.Driver.open_,Spiffs.Driver.called,hflags,hopen,herr']
    have hlist : (spiffsDriver spf).opendir m (Driver.sysopDir sp (Driver.sysopFile sp)) path
        { s with sys := sys₁ } = some ((0,d),{ s with sys := sys₂ }) := by
      simp [spiffsDriver,Spiffs.Driver.opendir,Spiffs.Driver.called,hopendir]
    have hdone : (spiffsDriver spf).closedir m d { s with sys := sys₂ } =
        some ((Spiffs.spiffsErrToErrno res,d),{ s with sys := sys₃ }) := by
      simp [spiffsDriver,Spiffs.Driver.closedir,Spiffs.Driver.called,Spiffs.Driver.errno,hclosedir]
    have hsysop := Driver.sysop_dir (spiffsDriver spf) sp hrun hneg hlist le_rfl hdone
    refine ⟨_,_,_,Driver.statAns_sysop (spiffsDriver spf) sp rfl hsysop,?_⟩
    refine iff_of_false ?_ hgood
    intro hexact
    -- a file would have to be reported as a file, and nothing as an error
    cases hlen : length m s.sys path with
    | none =>
      have hdesc := hexact.1
      simp only [spiffsObject,hlen,Option.map_none] at hdesc
      exact absurd hdesc.1 (by decide)
    | some n =>
      have hdesc := hexact.1
      simp only [spiffsObject,hlen,Option.map_some] at hdesc
      exact absurd hdesc.2.1 (by decide)

/-- `vfs_stat` succeeds exactly on existing objects, and describes them: on FatFs when what the
path buffer holds of the path leads to the same as the path, on littlefs when there is such an
object or the record on the stack happens to be blank, on SPIFFS when there is such a file and a
file descriptor is free. -/
theorem stat_exact {h : Host} {ff : FatFs h.Mnt} {object : ff.σ → CStr → Option VolumeObject}
    {opened : ff.σ → Nat} {isOpen : ff.Fil → ff.σ → Prop} {isListed : ff.Dir → ff.σ → Prop}
    (hff : ff.Resolves object opened isOpen isListed) {lf : LittleFs h.Mnt} (dno : h.Mnt → UInt8)
    {lfsObject : h.Mnt → lf.σ → CStr → Option VolumeObject} {lfsOpened : h.Mnt → lf.σ → Nat}
    (hlf : lf.Resolves lfsObject lfsOpened) {sp : SpiffsFs h.Mnt}
    {length : h.Mnt → sp.σ → CStr → Option Nat} {fdCount : h.Mnt → Nat}
    {spOpened : h.Mnt → sp.σ → Nat} {spIsOpen : h.Mnt → Int → CStr → sp.σ → Prop}
    (hsp : sp.Resolves length fdCount spOpened spIsOpen) :
    (fatfsDriver ff).StatExact (fatfsObject object) (fun _ s => opened s.sys)
      (fun m s => (s.descs m).absPathStrBuff.length = FATFS_MAX_ABS_PATH_SIZE)
      (fun _ s path => object s.sys path.below = object s.sys path.belowCut) ∧
    (littlefsDriver lf dno).StatExact (fun m s => lfsObject m s.sys) (fun m s => lfsOpened m s.sys)
      (fun _ _ => True) (fun m s path => lfsObject m s.sys path = none → s.stackInfo.Blank) ∧
    (spiffsDriver sp).StatExact (spiffsObject length) (fun m s => spOpened m s.sys)
      (fun _ _ => True)
      (fun m s path => (length m s.sys path).isSome ∧ spOpened m s.sys < fdCount m) :=
  ⟨fatfs_statExact hff,littlefs_statExact dno hlf,spiffs_statExact hsp⟩

section Demo

/-- The volume holds a file of three bytes and a directory; the state is the number of open
objects. -/
def smallVolume (path : CStr) : Option VolumeObject :=
  if path.chars = ['/','a'] then some (.file 3)
  else if path.chars = ['/','d'] then some .dir
  else none

def smallFat (Mnt : Type) : FatFs Mnt where
  Fil := Bool
  Dir := Bool
  σ := Nat
  zeroFil := false
  zeroDir := false
  openDisk _ s := (true,s)
  clear _ s := s
  mount _ _ s := (.ok,s)
  unmount _ s := (.ok,s)
  mkfs _ s := (.writeProtected,s)
  open_ path _ fp s :=
    match smallVolume path with
    | some (.file _) => (.ok,true,s + 1)
    | _ => (.noFile,fp,s)
  close _ s := (.ok,false,s - 1)
  read _ fp s := ((.ok,[]),fp,s)
  write _ fp s := ((.denied,0),fp,s)
  sync fp s := (.ok,fp,s)
  lseek _ fp s := (.ok,fp,s)
  tell _ := 0
  size _ := 3
  stat path s :=
    match smallVolume path with
    | some (.file n) => ((.ok,⟨n,0,0,AM_ARC,['a']⟩),s)
    | some .dir => ((.ok,⟨0,0,0,AM_DIR,['d']⟩),s)
    | none => ((.noFile,⟨0,0,0,0,[]⟩),s)
  unlink _ s := (.writeProtected,s)
  rename _ _ s := (.writeProtected,s)
  mkdir _ s := (.writeProtected,s)
  opendir path dp s :=
    match smallVolume path with
    | some .dir => (.ok,true,s + 1)
    | _ => (.noPath,dp,s)
  readdir dp s := ((.ok,⟨0,0,0,0,[nul]⟩),dp,s)
  closedir _ s := (.ok,false,s - 1)

theorem smallVolume_file {path : CStr} {n : Nat} (h : smallVolume path = some (.file n)) :
    n = 3 := by
  rw [smallVolume] at h
  split_ifs at h with ha hd
  · exact (VolumeObject.file.inj (Option.some.inj h)).symm
  · exact VolumeObject.noConfusion (Option.some.inj h)

theorem smallFat_resolves (Mnt : Type) :
    (smallFat Mnt).Resolves (fun _ => smallVolume) id (fun (fp : Bool) (s : Nat) => fp ∧ 0 < s)
      (fun (dp : Bool) (s : Nat) => dp ∧ 0 < s) where
  maxLength := by
    intro s path n hfile
    rw [smallVolume_file hfile]
    decide
  openFile := by
    intro s path n fp hfile
    exact ⟨true,Nat.succ s,by simp [smallFat,hfile],rfl,rfl,rfl,Nat.succ_pos s⟩
  openOther := by
    intro s path fp hother
    refine ⟨.noFile,fp,s,?_,by decide,rfl,rfl⟩
    simp only [smallFat]
  stat := by
    intro s path n fp hfile hopen
    have hattr : AM_ARC &&& AM_DIR = 0 := by decide
    exact ⟨⟨n,0,0,AM_ARC,['a']⟩,s,by simp [smallFat,hfile],hattr,rfl,rfl,hopen⟩
  close := by
    intro s fp hopen
    exact ⟨.ok,false,Nat.pred s,rfl,Nat.succ_pred_eq_of_pos hopen.2⟩
  opendir := by
    intro s path dp hdir
    exact ⟨true,Nat.succ s,by simp [smallFat,hdir],rfl,rfl,Nat.succ_pos s⟩
  opendirOther := by
    intro s path dp hother
    refine ⟨.noPath,dp,s,?_,by decide,rfl⟩
    simp only [smallFat]
  closedir := by
    intro s dp hopen
    exact ⟨.ok,false,Nat.pred s,rfl,Nat.succ_pred_eq_of_pos hopen.2⟩

def smallLfs (Mnt : Type) : LittleFs Mnt :=
  { brokenLfs Mnt with
    stat := fun _ path info s =>
      match smallVolume path with
      | some (.file n) => ((Littlefs.LFS_ERR_OK,⟨LFS_TYPE_REG,UInt32.ofNat n,['a']⟩),s)
      | some .dir => ((Littlefs.LFS_ERR_OK,{ info with type := LFS_TYPE_DIR }),s)
      | none => ((Littlefs.LFS_ERR_NOENT,info),s) }

theorem smallLfs_resolves (Mnt : Type) :
    (smallLfs Mnt).Resolves (fun _ _ => smallVolume) (fun _ _ => 0) where
  statFile := by
    intro m s path n info hfile
    obtain rfl := smallVolume_file hfile
    exact ⟨⟨LFS_TYPE_REG,3,['a']⟩,s,by simp [smallLfs,hfile],rfl,rfl,rfl⟩
  statDir := by
    intro m s path info hdir
    exact ⟨{ info with type := LFS_TYPE_DIR },s,by simp [smallLfs,hdir],rfl,rfl⟩
  statNone := by
    intro m s path info hnone
    exact ⟨Littlefs.LFS_ERR_NOENT,s,by simp [smallLfs,hnone],by decide,rfl⟩

/-- The file of three bytes alone, with four file descriptors. -/
def smallLength (path : CStr) : Option Nat := if path.chars = ['/','a'] then some 3 else none

abbrev smallSpiffs (Mnt : Type) : SpiffsFs Mnt where
  Dir := Unit
  σ := Nat
  mount _ _ s := (Spiffs.SPIFFS_OK,s)
  unmount _ s := s
  format _ _ s := (Spiffs.SPIFFS_OK,s)
  remove _ _ s := (Spiffs.SPIFFS_ERR_NOT_FOUND,s)
  rename _ _ _ s := (Spiffs.SPIFFS_ERR_NOT_FOUND,s)
  open_ _ path _ s :=
    if 4 ≤ s then (-10007,s)
    else if (smallLength path).isSome then ((s + 1 : Nat),s + 1)
    else (Spiffs.SPIFFS_ERR_NOT_FOUND,s)
  close _ _ s := (Spiffs.SPIFFS_OK,s - 1)
  read _ _ _ s := ((0,[]),s)
  write _ _ _ s := (-10021,s)
  lseek _ _ _ _ s := (0,s)
  fflush _ _ s := (Spiffs.SPIFFS_OK,s)
  fstat _ _ _ s := ((Spiffs.SPIFFS_OK,⟨1,3⟩),s)
  opendir _ _ d s := ((true,d),s)
  readdir d e s := (((false,e),d),s)
  errno _ _ := -10072
  closedir _ s := (Spiffs.SPIFFS_OK,s)

theorem smallSpiffs_resolves (Mnt : Type) :
    (smallSpiffs Mnt).Resolves (fun _ _ => smallLength) (fun _ => 4) (fun _ s => s)
      (fun _ _ path (s : Nat) => (smallLength path).isSome ∧ 0 < s) where
  maxLength := by
    intro m s path n hlen
    rw [smallLength] at hlen
    split_ifs at hlen
    obtain rfl := Option.some.inj hlen
    decide
  openFile := by
    intro m s path n hlen hfree
    have hfree' : ¬4 ≤ s := Nat.not_le.mpr hfree
    have hsome : (smallLength path).isSome := by rw [hlen]; rfl
    refine ⟨(Nat.succ s : Nat),Nat.succ s,?_,Int.natCast_nonneg _,rfl,rfl,hsome,Nat.succ_pos s⟩
    simp [smallSpiffs,hfree',hsome]
  openFails := by
    intro m s path hbad
    by_cases hfull : 4 ≤ s
    · exact ⟨-10007,s,by simp [smallSpiffs,hfull],by decide,by decide,rfl⟩
    · have hnone : smallLength path = none := hbad.resolve_right hfull
      exact ⟨Spiffs.SPIFFS_ERR_NOT_FOUND,s,by simp [smallSpiffs,hfull,hnone],by decide,by decide,
        rfl⟩
  fstat := by
    intro m fh path s n stat hopen hlen
    rw [smallLength] at hlen
    split_ifs at hlen
    obtain rfl := Option.some.inj hlen
    exact ⟨⟨1,3⟩,s,rfl,rfl,rfl,hopen⟩
  close := by
    intro m fh path s hopen
    exact ⟨_,_,rfl,Nat.succ_pred_eq_of_pos hopen.2⟩
  opendir := by
    intro m s path d
    exact ⟨d,s,rfl,rfl⟩
  closedir := by
    intro m s d
    exact ⟨_,_,rfl,rfl⟩

/-- One mount object, one DIR object and one task. -/
def smallHost : Host :=
  ⟨Unit,Unit,Unit,inferInstance,inferInstance,inferInstance,inferInstance,inferInstance,
    inferInstance⟩

theorem stat_exact_small :
    (fatfsDriver (smallFat smallHost.Mnt)).StatExact (fatfsObject fun _ => smallVolume)
      (fun _ s => id s.sys)
      (fun m s => (s.descs m).absPathStrBuff.length = FATFS_MAX_ABS_PATH_SIZE)
      (fun _ _ path => smallVolume path.below = smallVolume path.belowCut) ∧
    (littlefsDriver (smallLfs smallHost.Mnt) fun _ => 0).StatExact (fun _ _ => smallVolume)
      (fun _ _ => 0) (fun _ _ => True)
      (fun _ s path => smallVolume path = none → s.stackInfo.Blank) ∧
    (spiffsDriver (smallSpiffs smallHost.Mnt)).StatExact (spiffsObject fun _ _ => smallLength)
      (fun _ s => s.sys) (fun _ _ => True)
      (fun _ s path => (smallLength path).isSome ∧ s.sys < 4) :=
  stat_exact (smallFat_resolves _) (fun _ => 0) (smallLfs_resolves _) (smallSpiffs_resolves _)

abbrev SmallWorld : World :=
  Driver.World smallHost (id : Int × Unit → Int × Unit) (0,())
    (SpiffsState (smallSpiffs smallHost.Mnt))

/-- SPIFFS is mounted on "/"; `sys` of its file descriptors are in use. -/
def smallMounted (sys : Nat) : State SmallWorld where
  mounts _ := ⟨some ((spiffsDriver (smallSpiffs smallHost.Mnt)).fileSystem
    ⟨fun _ => true,(0,()),id⟩),some CStr.root,1,0⟩
  mountsList := ⟨some (),fun _ => some ()⟩
  files _ := ⟨none,none,0,0,none,(0,())⟩
  dirs _ := ⟨none,none,(0,())⟩
  drv := ⟨fun _ => 0,sys,⟨0,0⟩,⟨0,[]⟩⟩
  mountMutex := 0
  openMutex := 0
  calls := []

/-- On SPIFFS a name that is not there is a directory, and so is a file when all descriptors are
in use. -/
theorem stat_of_nothing :
    smallLength (CStr.ofList ['/','x']) = none ∧
    ((vfsStat (some (CStr.ofList ['/','x'])) (some Stat.zero)).run (Action.exec ())
      (smallMounted 0)).map Prod.fst = some (0,some ⟨0,S_IFDIR,0,0⟩) ∧
    smallLength (CStr.ofList ['/','a']) = some 3 ∧
    ((vfsStat (some (CStr.ofList ['/','a'])) (some Stat.zero)).run (Action.exec ())
      (smallMounted 4)).map Prod.fst = some (0,some ⟨0,S_IFDIR,0,0⟩) := by
  refine ⟨by decide,?_,by decide,?_⟩
  · decide
  · decide

end Demo

end UcVfs
