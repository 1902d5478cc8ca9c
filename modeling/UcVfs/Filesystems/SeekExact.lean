import UcVfs.Filesystems.Drivers
import UcVfs.Fatfs.ClusterSeek
import UcVfs.Fatfs.FileMove
import UcVfs.Littlefs.FileSeek
import UcVfs.Spiffs.FileSeek

/-!
# Seeking through the VFS layer

`vfs_lseek` on a descriptor of each of the three drivers. The driver's function is carried through
the tables to the seek of the file system, and what that can do decides when the caller gets what
is owed to it.
-/

namespace UcVfs

open Framework

/-! ### Any driver -/

section Driver

variable {h : Host} {File Dir Drv : Type} {nullPtr : File × Dir → File × Dir} {zeroed : File × Dir}

/-- An open descriptor of a driver, on a mount. -/
structure Driver.HasOpen (d : Driver h.Mnt File Dir Drv)
    (s : State (Driver.World h nullPtr zeroed Drv)) (fd : Int) (f : Fd) (m : h.Mnt) : Prop where
  entry : s.entry fd = some f
  fOp : (s.files f).fOp = some d.fileOps
  mp : (s.files f).mp = some m

/-- Position and length, as the driver's object and data tell them. -/
def Driver.extent (ext : File → Drv → Extent) (e : UcVfs.File (Driver.World h nullPtr zeroed Drv))
    (drv : Drv) : Extent :=
  ext e.priv.1 drv

variable {d : Driver h.Mnt File Dir Drv} {s : State (Driver.World h nullPtr zeroed Drv)} {fd : Int}
  {f : Fd} {m : h.Mnt} {tcb : h.Task}

/-- What `vfs_lseek` does is what the driver's function does. -/
theorem Driver.lseekExact (hopen : d.HasOpen s fd f m) (ext : File → Drv → Extent) {off : OffT}
    {whence res : Int} {file' : File} {drv' : Drv}
    (hseek : d.lseek m (s.files f).priv.1 off whence s.drv = some ((res,file'),drv')) :
    LseekExact (Driver.extent ext) tcb s fd f off whence ↔
      (ext (s.files f).priv.1 s.drv).Sought (ext file' drv') off whence res := by
  have hans : Driver.fileAns (s.files f).view s.drv
      (fun m file => (d.lseek m file off whence s.drv).map Driver.resOnly) =
      ⟨res,[],Stat.zero,(s.files f).pos,(file',(s.files f).priv.2),drv'⟩ := by
    have hmp : (s.files f).view.mp = some m := hopen.mp
    have hseek' : d.lseek m (s.files f).view.priv.1 off whence s.drv = some ((res,file'),drv') := hseek
    simp only [Driver.fileAns,hmp,Option.bind_some,hseek',Option.map_some,Driver.resOnly]
    rfl
  rw [lseekExact_driver hopen.entry hopen.fOp rfl hans]
  rfl

end Driver

/-- One mount object, one DIR object and one task. -/
def oneHost : Host :=
  ⟨Unit,Unit,Unit,inferInstance,inferInstance,inferInstance,inferInstance,inferInstance,
    inferInstance⟩

/-- The first descriptor is open. -/
def Driver.seekState {File Dir Drv : Type} (d : Driver oneHost.Mnt File Dir Drv) (file : File) (dir : Dir)
    (drv : Drv) : State (Driver.World oneHost (id : File × Dir → File × Dir) (file,dir) Drv) where
  mounts _ := ⟨none,none,0,0⟩
  mountsList := ⟨some (),fun _ => some ()⟩
  files _ := ⟨some d.fileOps,some (),0,0,some (),(file,dir)⟩
  dirs _ := ⟨none,none,(file,dir)⟩
  drv := drv
  mountMutex := 0
  openMutex := 0
  calls := []

theorem Driver.seekState_open {File Dir Drv : Type} (d : Driver oneHost.Mnt File Dir Drv) (file : File)
    (dir : Dir) (drv : Drv) : d.HasOpen (Driver.seekState d file dir drv) 0 ⟨0,by decide⟩ () :=
  ⟨rfl,rfl,rfl⟩

/-! ### FatFs -/

/-- FatFs as `ff.c` has it, as far as seeking goes. -/
structure FatFs.Seeks {Mnt Buf σ : Type} (ff : FatFs Mnt) (v : Fatfs.FatVolume Buf σ)
    (fil : ff.Fil → Fatfs.Fil Buf) (vol : ff.σ → σ) : Prop where
  lseek : ∀ {ofs fp s res fp' s'},ff.lseek ofs fp s = (res,fp',s') →
    v.fLseek ofs (fil fp) (vol s) = (res,fil fp',vol s')
  tell : ∀ fp,ff.tell fp = (fil fp).fptr
  size : ∀ fp,ff.size fp = (fil fp).objsize

namespace Fatfs

/-- Position and length. -/
def Fil.extent {Buf : Type} (fp : Fil Buf) : Extent := ⟨fp.fptr,fp.objsize⟩

/-- The targets at which a seek does what it owes, with `limit` the place that it cannot pass: a
number that 31 bits hold and that is not behind the limit, or one that is returned as a negative
number when the position happens to be where it leads. -/
def SeekReaches (limit pos : ℕ) (t : Int) : Prop :=
  0 ≤ t ∧ t < 2 ^ 31 ∧ t ≤ limit ∨ 2 ^ 31 ≤ t % 2 ^ 32 ∧ min (t % 2 ^ 32) (limit : Int) = pos

section Seek

variable {Mnt : Type} [DecidableEq Mnt] {ff : FatFs Mnt}

/-- The adapter hands the target on as an unsigned number and returns it as a signed one. -/
theorem seekTo_run (fd : FatfsFileDesc ff.Fil) (t : Int) (s : FatState ff) {res : FResult}
    {fp' : ff.Fil} {sys : ff.σ} (hseek : ff.lseek (t % 2 ^ 32).toNat fd.file s.sys = (res,fp',sys)) :
    (seekTo fd (toOff t)).run FatAct.exec s =
      some ((if res = .ok then toOff t else fatfsErrToErrno res,{ fd with file := fp' }),
        { s with sys := sys }) := by
  have hsame : toOff t % 2 ^ 32 = t % 2 ^ 32 := by
    rw [toOff]
    exact Int.bmod_emod
  have hexec : FatAct.exec (.lseek (toOff t % 2 ^ 32).toNat fd.file) s =
      some ((res,fp'),{ s with sys := sys }) := by
    rw [hsame]
    simp only [FatAct.exec,hseek]
  simp only [seekTo,act,Prog.act_bind,Prog.run_step hexec]
  by_cases hok : res = .ok
  · rw [if_pos hok,if_pos hok]
    rfl
  · rw [if_neg hok,if_neg hok]
    rfl

/-- The outcome of a seek on a sound volume, to an exact target. -/
theorem seek_sought {e e' : Extent} {off whence t res : Int} {limit : ℕ}
    (ht : e.target off whence = some t) (hrange : -2 ^ 31 ≤ t ∧ t < 2 ^ 33) (hres : res = toOff t)
    (hpos : e'.pos = min (t % 2 ^ 32).toNat limit) (hsize : e'.size = max e.size e'.pos)
    (hwithin : e.pos ≤ e.size) :
    e.Sought e' off whence res ↔ SeekReaches limit e.pos t := by
  have hoff : toOff t = if t % 2 ^ 32 < 2 ^ 31 then t % 2 ^ 32 else t % 2 ^ 32 - 2 ^ 32 := by
    rw [toOff,Int.bmod_def]
    simp
  have hsame : e' = e ↔ e'.pos = e.pos := by
    constructor
    · exact congrArg Extent.pos
    · intro he
      have hs : e'.size = e.size := by omega
      cases e
      cases e'
      simp_all
  rw [Extent.Sought,ht,hsame,SeekReaches,hres,hoff]
  simp only [Option.some.injEq]
  constructor
  · rintro (⟨t',rfl,hnonneg,he,hat⟩ | ⟨hneg,hat⟩)
    · left
      split_ifs at he <;> omega
    · right
      split_ifs at hneg <;> omega
  · rintro (⟨hnonneg,hlt,hle⟩ | ⟨hbig,hat⟩)
    · left
      refine ⟨t,rfl,hnonneg,?_,by omega⟩
      rw [if_pos (by omega)]
      omega
    · right
      rw [if_neg (by omega)]
      exact ⟨by omega,by omega⟩

/-- `_lseek` on a file of a sound volume. -/
theorem lseek_sought {Buf σ : Type} {v : FatVolume Buf σ} {fil : ff.Fil → Fil Buf}
    {vol : ff.σ → σ} (hff : ff.Seeks v fil vol) {Chain : List ℕ → ℕ → σ → Prop}
    (hv : v.Sound Chain) {cs : List ℕ} {n : ℕ} (fd : FatfsFileDesc ff.Fil) (s : FatState ff)
    (hchain : Chain cs n (vol s.sys)) (hfp : v.Stands (fil fd.file) cs)
    (hsize : (fil fd.file).objsize < 2 ^ 32) {off whence : Int}
    (hoff : -2 ^ 31 ≤ off ∧ off < 2 ^ 31) :
    ∃ res fd' s',(lseek fd off whence).run FatAct.exec s = some ((res,fd'),s') ∧
      ((fil fd.file).extent.Sought (fil fd'.file).extent off whence res ↔
        v.check (fil fd.file) (vol s.sys) ≠ .ok ∨
          ∀ t,(fil fd.file).extent.target off whence = some t →
            SeekReaches (v.limit (fil fd.file) cs n) (fil fd.file).fptr t) := by
  have hwithin := hfp.within
  -- every known `whence` ends in `seekTo` with the 32 bits of the target
  have hto : ∀ t,(fil fd.file).extent.target off whence = some t → -2 ^ 31 ≤ t ∧ t < 2 ^ 33 →
      lseek fd off whence = seekTo fd (toOff t) →
      ∃ res fd' s',(lseek fd off whence).run FatAct.exec s = some ((res,fd'),s') ∧
        ((fil fd.file).extent.Sought (fil fd'.file).extent off whence res ↔
          v.check (fil fd.file) (vol s.sys) ≠ .ok ∨
            ∀ t,(fil fd.file).extent.target off whence = some t →
              SeekReaches (v.limit (fil fd.file) cs n) (fil fd.file).fptr t) := by
    intro t ht hrange hcode
    obtain ⟨res,fp',sys,hseek⟩ : ∃ res fp' sys,ff.lseek (t % 2 ^ 32).toNat fd.file s.sys =
        (res,fp',sys) := ⟨_,_,_,rfl⟩
    have hmodel := hff.lseek hseek
    rw [hcode]
    refine ⟨_,_,_,seekTo_run fd t s hseek,?_⟩
    by_cases hcheck : v.check (fil fd.file) (vol s.sys) = .ok
    · obtain ⟨fp₂,s₂,hrun,hpos,hgrown⟩ := hv.fLseek hchain hfp hcheck (t % 2 ^ 32).toNat
      rw [hmodel] at hrun
      obtain ⟨rfl,rfl,rfl⟩ : res = .ok ∧ fil fp' = fp₂ ∧ vol sys = s₂ := by
        rw [Prod.mk.injEq,Prod.mk.injEq] at hrun
        exact hrun
      rw [if_pos rfl,seek_sought ht hrange rfl hpos hgrown hwithin]
      constructor
      · intro hreach
        refine Or.inr fun t' ht' => ?_
        rw [ht,Option.some.injEq] at ht'
        exact ht' ▸ hreach
      · rintro (hbad | hreach)
        · exact absurd hcheck hbad
        · exact hreach t ht
    · have hfail : (res,fil fp',vol sys) = (v.check (fil fd.file) (vol s.sys),fil fd.file,vol s.sys) := by
        rw [← hmodel,FatVolume.fLseek]
        simp only [if_pos hcheck]
      rw [Prod.mk.injEq,Prod.mk.injEq] at hfail
      have hres : res ≠ .ok := hfail.1 ▸ hcheck
      rw [if_neg hres]
      refine iff_of_true (Or.inr ⟨fatfsErrToErrno_neg hres,?_⟩) (Or.inl hcheck)
      rw [hfail.2.1]
  by_cases hset : whence = SEEK_SET
  · refine hto off (if_pos hset) (by omega) ?_
    have hoff' : toOff off = off := by
      rw [toOff]
      exact Int.bmod_eq_of_le (by omega) (by omega)
    rw [lseek,if_pos hset,hoff']
  · by_cases hcur : whence = SEEK_CUR
    · refine hto ((fil fd.file).fptr + off) ?_ (by omega) ?_
      · rw [Extent.target,if_neg hset,if_pos hcur]
        rfl
      · rw [lseek,if_neg hset,if_pos hcur,hff.tell]
    · by_cases hend : whence = SEEK_END
      · refine hto ((fil fd.file).objsize + off) ?_ (by omega) ?_
        · rw [Extent.target,if_neg hset,if_neg hcur,if_pos hend]
          rfl
        · rw [lseek,if_neg hset,if_neg hcur,if_pos hend,hff.size]
      · have hnone : (fil fd.file).extent.target off whence = none := by
          rw [Extent.target,if_neg hset,if_neg hcur,if_neg hend]
        refine ⟨fatfsErrToErrno .invalidParameter,fd,s,?_,?_⟩
        · rw [lseek,if_neg hset,if_neg hcur,if_neg hend]
          rfl
        · refine iff_of_true (Or.inr ⟨by decide,rfl⟩) (Or.inr fun t ht => ?_)
          rw [hnone] at ht
          cases ht

end Seek

end Fatfs

section Fatfs

variable {h : Host} {ff : FatFs h.Mnt} {nullPtr zeroed}

/-- On FatFs a seek is owed nothing else but that the target is in reach. -/
theorem fatfs_lseek_exact {Buf σ : Type} {v : Fatfs.FatVolume Buf σ} {fil : ff.Fil → Fatfs.Fil Buf}
    {vol : ff.σ → σ} (hff : ff.Seeks v fil vol) {Chain : List ℕ → ℕ → σ → Prop}
    (hv : v.Sound Chain) {s : State (Driver.World h nullPtr zeroed (FatState ff))} {fd : Int} {f : Fd}
    {m : h.Mnt} (hopen : (fatfsDriver ff).HasOpen s fd f m) {cs : List ℕ} {n : ℕ}
    (hchain : Chain cs n (vol s.drv.sys)) (hfp : v.Stands (fil (s.files f).priv.1.file) cs)
    (hsize : (fil (s.files f).priv.1.file).objsize < 2 ^ 32) (tcb : h.Task) (off : OffT)
    (whence : Int) :
    LseekExact (Driver.extent fun fd _ => (fil fd.file).extent) tcb s fd f off whence ↔
      v.check (fil (s.files f).priv.1.file) (vol s.drv.sys) ≠ .ok ∨
        ∀ t,(fil (s.files f).priv.1.file).extent.target off whence = some t →
          Fatfs.SeekReaches (v.limit (fil (s.files f).priv.1.file) cs n)
            (fil (s.files f).priv.1.file).fptr t := by
  obtain ⟨res,fd',s',hrun,hsought⟩ :=
    Fatfs.lseek_sought hff hv (s.files f).priv.1 s.drv hchain hfp hsize off.property
  rw [← hsought]
  exact Driver.lseekExact hopen _ hrun

end Fatfs

section Fatfs

open Fatfs

/-- FatFs on the small volume, as far as seeking goes. -/
abbrev tinyFat (Mnt : Type) : FatFs Mnt where
  Fil := Fatfs.Fil Framework.Mem
  Dir := Unit
  σ := Fatfs.FATFS
  zeroFil := Fatfs.tinyFil
  zeroDir := ()
  openDisk _ s := (true,s)
  clear _ s := s
  mount _ _ s := (.ok,s)
  unmount _ s := (.ok,s)
  mkfs _ s := (.writeProtected,s)
  open_ _ _ fp s := (.noFile,fp,s)
  close fp s := (.ok,fp,s)
  read _ fp s := ((.denied,[]),fp,s)
  write _ fp s := ((.denied,0),fp,s)
  sync fp s := (.ok,fp,s)
  lseek ofs fp s := (tiny.volume staysMounted).fLseek ofs fp s
  tell fp := fp.fptr
  size fp := fp.objsize
  stat _ s := ((.noFile,⟨0,0,0,0,[]⟩),s)
  unlink _ s := (.writeProtected,s)
  rename _ _ s := (.writeProtected,s)
  mkdir _ s := (.writeProtected,s)
  opendir _ dp s := (.noPath,dp,s)
  readdir dp s := ((.ok,⟨0,0,0,0,[nul]⟩),dp,s)
  closedir dp s := (.ok,dp,s)

theorem tinyFat_seeks (Mnt : Type) : (tinyFat Mnt).Seeks (tiny.volume staysMounted) id id :=
  ⟨fun h => h,fun _ => rfl,fun _ => rfl⟩

/-- A descriptor of the file of the small volume. -/
abbrev tinySeeking : State (Driver.World oneHost (id : FatfsFileDesc (Fatfs.Fil Framework.Mem) × Unit → _)
    (⟨tinyFil,[]⟩,()) (FatState (tinyFat oneHost.Mnt))) :=
  Driver.seekState (fatfsDriver (tinyFat oneHost.Mnt)) ⟨tinyFil,[]⟩ () ⟨fun _ => ⟨0,0,[]⟩,0,tinyFs,[]⟩

theorem fatfs_lseek_exact_tiny :
    LseekExact (Driver.extent fun fd _ => Fatfs.Fil.extent fd.file) () tinySeeking 0 ⟨0,by decide⟩
      ⟨2,by decide⟩ SEEK_SET := by
  have hopen : (fatfsDriver (tinyFat oneHost.Mnt)).HasOpen tinySeeking 0 ⟨0,by decide⟩ () :=
    Driver.seekState_open _ _ _ _
  refine (fatfs_lseek_exact (tinyFat_seeks _) (tiny.volume_sound staysMounted tinyChains (.inl ())) hopen
    tiny_opened.holds (tiny_opened.stands staysMounted) (by decide) () _ _).mpr (Or.inr fun t ht => ?_)
  have htarget : t = 2 := Option.some.inj ht.symm
  subst htarget
  exact Or.inl (by decide)

end Fatfs

/-! ### littlefs -/

/-- littlefs as `lfs.c` has it, as far as seeking goes. -/
structure LittleFs.Seeks {Mnt σ : Type} (lf : LittleFs Mnt) (m : Mnt) (v : Littlefs.LfsVolume σ)
    (file : lf.File → Littlefs.FileT) (vol : lf.σ → σ) : Prop where
  fileSeek : ∀ {fp off whence s res fp' s'},lf.fileSeek m fp off whence s = ((res,fp'),s') →
    v.lfsFileSeek off whence (file fp) (vol s) = (res,file fp',vol s')

section Littlefs

variable {h : Host} {lf : LittleFs h.Mnt} {nullPtr zeroed}

/-- On littlefs the bytes that a seek writes out must not come to an error once one of them is
copied. -/
theorem littlefs_lseek_exact {σ : Type} {v : Littlefs.LfsVolume σ} {file : lf.File → Littlefs.FileT}
    {vol : lf.σ → σ} {m : h.Mnt} (hlf : lf.Seeks m v file vol) (dno : h.Mnt → UInt8)
    {s : State (Driver.World h nullPtr zeroed (LfsState lf))} {fd : Int} {f : Fd}
    (hopen : (littlefsDriver lf dno).HasOpen s fd f m) (hfile : v.Open (file (s.files f).priv.1))
    (tcb : h.Task) (off : OffT) (whence : Int) :
    LseekExact (Driver.extent fun fp _ => Littlefs.LfsVolume.extent (file fp)) tcb s fd f off whence ↔
      ((Littlefs.LfsVolume.extent (file (s.files f).priv.1)).target off whence).isSome ∧
        (v.SeekFlushes off whence (file (s.files f).priv.1) →
          (v.lfsFileFlush (file (s.files f).priv.1) (vol s.drv.sys)).2.1.pos =
            (file (s.files f).priv.1).pos) := by
  obtain ⟨res,fp',sys,hseek⟩ : ∃ res fp' sys,
      lf.fileSeek m (s.files f).priv.1 off whence s.drv.sys = ((res,fp'),sys) := ⟨_,_,_,rfl⟩
  have hexec : LfsAct.exec (.fileSeek m (s.files f).priv.1 off whence) (Littlefs.Driver.held s.drv m) =
      some ((res,fp'),{ Littlefs.Driver.held s.drv m with sys := sys }) :=
    congrArg (LfsState.returned (Littlefs.Driver.held s.drv m)) hseek
  have hrun : (Littlefs.Driver.lseek m (s.files f).priv.1 off whence).run LfsAct.exec s.drv =
      some ((Littlefs.littlefsErrToErrno res,fp'),{ s.drv with sys := sys }) :=
    Prog.run_map Littlefs.Driver.errno (Littlefs.Driver.act_run hexec)
  rw [← Littlefs.LfsVolume.lfsFileSeek_sought hfile off.property _ (hlf.fileSeek hseek)]
  exact Driver.lseekExact hopen _ hrun

end Littlefs

/-- littlefs that finds every block, as far as seeking goes. -/
def plainLfs : Littlefs.LfsVolume Unit where
  blockSize := 4096
  inlineMax := 0
  fileMax := 0x7FFFFFFF
  rcache _ := ⟨Littlefs.LFS_BLOCK_NULL,0,0⟩
  dropRcache s := s
  zeroCache s := s
  allocCkpoint s := s
  ctzFind file _ s := ((.ok 0,file.cache),s)
  ctzExtend file s := ((.ok (0,⟨0,by decide⟩),file.cache),s)
  relocate file s := ((.ok 0,file.cache),s)
  bdProg file _ s := ((.ok (),file.block,file.cache),s)
  bdFlush file s := ((.ok (),file.block,file.cache),s)
  flushedread file s := ((.ok 0,file),s)

abbrev seekingLfs (Mnt : Type) : LittleFs Mnt where
  File := Littlefs.FileT
  Dir := Unit
  Block := Unit
  σ := Unit
  cacheAlloc s := (none,s)
  cacheFree _ s := s
  cfgBuffer _ _ := none
  format _ _ s := (Littlefs.LFS_ERR_IO,s)
  mount _ _ s := (Littlefs.LFS_ERR_OK,s)
  unmount _ s := (Littlefs.LFS_ERR_OK,s)
  remove _ _ s := (Littlefs.LFS_ERR_IO,s)
  rename _ _ _ s := (Littlefs.LFS_ERR_IO,s)
  mkdir _ _ s := (Littlefs.LFS_ERR_IO,s)
  fileOpencfg _ fp _ _ _ s := ((Littlefs.LFS_ERR_IO,fp),s)
  fileClose _ fp s := ((Littlefs.LFS_ERR_OK,fp),s)
  fileRead _ fp _ s := (((Littlefs.LFS_ERR_IO,[]),fp),s)
  fileWrite _ fp _ s := ((Littlefs.LFS_ERR_IO,fp),s)
  fileSeek _ fp off whence s :=
    let (res,fp,s) := plainLfs.lfsFileSeek off whence fp s
    ((res,fp),s)
  fileSync _ fp s := ((Littlefs.LFS_ERR_OK,fp),s)
  stat _ _ info s := ((Littlefs.LFS_ERR_IO,info),s)
  dirOpen _ dp _ s := ((Littlefs.LFS_ERR_IO,dp),s)
  dirRead _ dp info s := (((Littlefs.LFS_ERR_IO,info),dp),s)
  dirClose _ dp s := ((Littlefs.LFS_ERR_OK,dp),s)

theorem seekingLfs_seeks (Mnt : Type) (m : Mnt) : (seekingLfs Mnt).Seeks m plainLfs id id := by
  refine ⟨fun h => ?_⟩
  rw [Prod.mk.injEq,Prod.mk.injEq] at h
  obtain ⟨⟨rfl,rfl⟩,rfl⟩ := h
  rfl

def threeBytes : Littlefs.FileT := ⟨⟨0,3⟩,0,0,0,0,⟨Littlefs.LFS_BLOCK_NULL,0,0⟩⟩

abbrev lfsSeeking : State (Driver.World oneHost (id : Littlefs.FileT × Unit → _) (threeBytes,())
    (LfsState (seekingLfs oneHost.Mnt))) :=
  Driver.seekState (littlefsDriver (seekingLfs oneHost.Mnt) fun _ => 0) threeBytes ()
    ⟨fun _ => ⟨⟨0,0,0,0,0,0,0⟩,none,0,0,0⟩,(),⟨0,0,[]⟩⟩

theorem littlefs_lseek_exact_three :
    LseekExact (Driver.extent fun fp _ => Littlefs.LfsVolume.extent fp) () lfsSeeking 0 ⟨0,by decide⟩
      ⟨2,by decide⟩ SEEK_SET := by
  have hopen : (littlefsDriver (seekingLfs oneHost.Mnt) fun _ => 0).HasOpen lfsSeeking 0 ⟨0,by decide⟩ () :=
    Driver.seekState_open _ _ _ _
  have hfile : plainLfs.Open threeBytes := ⟨by decide,by decide,by decide,fun hw => absurd rfl hw⟩
  have hexact := littlefs_lseek_exact (seekingLfs_seeks oneHost.Mnt ()) (fun _ => 0) hopen hfile ()
    ⟨2,by decide⟩ SEEK_SET
  exact hexact.mpr ⟨rfl,fun _ => rfl⟩

/-! ### SPIFFS -/

/-- SPIFFS as `spiffs_hydrogen.c` has it, as far as seeking on one descriptor goes. -/
structure SpiffsFs.Seeks {Mnt σ : Type} (sp : SpiffsFs Mnt) (m : Mnt) (fh : Int)
    (v : Spiffs.SpiffsVolume σ) (desc : sp.σ → Spiffs.SpiffsFd) (vol : sp.σ → σ) : Prop where
  lseek : ∀ {off whence s res s'},sp.lseek m fh off whence s = (res,s') →
    v.spiffsLseek off whence (desc s) (vol s) = (res,desc s',vol s')

section Spiffs

variable {h : Host} {sp : SpiffsFs h.Mnt} {nullPtr zeroed}

/-- On SPIFFS a target behind the end is clipped and reported as 0, and what the write cache holds
must not get lost. -/
theorem spiffs_lseek_exact {σ : Type} {v : Spiffs.SpiffsVolume σ} {desc : sp.σ → Spiffs.SpiffsFd}
    {vol : sp.σ → σ} {s : State (Driver.World h nullPtr zeroed (SpiffsState sp))} {fd : Int} {f : Fd}
    {m : h.Mnt} (hsp : sp.Seeks m (s.files f).priv.1 v desc vol)
    (hopen : (spiffsDriver sp).HasOpen s fd f m) (hfd : v.Open (desc s.drv.sys) (vol s.drv.sys))
    (tcb : h.Task) (off : OffT) (whence : Int) :
    LseekExact (Driver.extent fun _ drv => Spiffs.SpiffsVolume.extent (desc drv.sys)) tcb s fd f off
      whence ↔ v.SeekExact off whence (desc s.drv.sys) (vol s.drv.sys) := by
  obtain ⟨res,sys,hseek⟩ : ∃ res sys,sp.lseek m (s.files f).priv.1 off
      (Spiffs.Driver.seekWhence whence) s.drv.sys = (res,sys) := ⟨_,_,rfl⟩
  have hrun : (spiffsDriver sp).lseek m (s.files f).priv.1 off whence s.drv =
      some ((Spiffs.spiffsErrToErrno res,(s.files f).priv.1),{ s.drv with sys := sys }) := by
    simp only [spiffsDriver,Spiffs.Driver.lseek,hseek]
    rfl
  rw [← Spiffs.SpiffsVolume.spiffsLseek_sought hfd off.property (hsp.lseek hseek)]
  exact Driver.lseekExact hopen _ hrun

end Spiffs

/-- SPIFFS that finds every index page, as far as seeking on one descriptor goes. -/
def plainSpiffs : Spiffs.SpiffsVolume Unit where
  dataPageSize := 251
  objHdrIxLen := 100
  objIxLen := 120
  check _ := Spiffs.SPIFFS_OK
  hydroWrite fd page s := ((Spiffs.SPIFFS_OK,page.offset + page.size,fd.cursorObjixPix,fd.cursorObjixSpix),s)
  releasePage _ s := s
  setErrCode _ s := s
  luFindIdAndSpan _ _ s := ((Spiffs.SPIFFS_OK,0),s)

abbrev seekingSpiffs (Mnt : Type) : SpiffsFs Mnt where
  Dir := Unit
  σ := Spiffs.SpiffsFd
  mount _ _ s := (Spiffs.SPIFFS_OK,s)
  unmount _ s := s
  format _ _ s := (Spiffs.SPIFFS_OK,s)
  remove _ _ s := (Spiffs.SPIFFS_ERR_NOT_FOUND,s)
  rename _ _ _ s := (Spiffs.SPIFFS_ERR_NOT_FOUND,s)
  open_ _ _ _ s := (Spiffs.SPIFFS_ERR_NOT_FOUND,s)
  close _ _ s := (Spiffs.SPIFFS_OK,s)
  read _ _ _ s := ((0,[]),s)
  write _ _ _ s := (-10021,s)
  lseek _ _ off whence s :=
    let (res,fd,_) := plainSpiffs.spiffsLseek off whence s ()
    (res,fd)
  fflush _ _ s := (Spiffs.SPIFFS_OK,s)
  fstat _ _ _ s := ((Spiffs.SPIFFS_OK,⟨1,3⟩),s)
  opendir _ _ d s := ((true,d),s)
  readdir d e s := (((false,e),d),s)
  errno _ _ := -10072
  closedir _ s := (Spiffs.SPIFFS_OK,s)

theorem seekingSpiffs_seeks (Mnt : Type) (m : Mnt) (fh : Int) :
    (seekingSpiffs Mnt).Seeks m fh plainSpiffs id fun _ => () := by
  refine ⟨fun h => ?_⟩
  rw [Prod.mk.injEq] at h
  obtain ⟨rfl,rfl⟩ := h
  rfl

/-- Three bytes, of which the last two wait in the cache. -/
def cachedBytes : Spiffs.SpiffsFd := ⟨1,7,0,0,0,0,some ⟨1,2⟩⟩

abbrev spiffsSeeking : State (Driver.World oneHost (id : Int × Unit → _) (0,())
    (SpiffsState (seekingSpiffs oneHost.Mnt))) :=
  Driver.seekState (spiffsDriver (seekingSpiffs oneHost.Mnt)) 0 ()
    ⟨fun _ => 0,cachedBytes,⟨0,0⟩,⟨0,[]⟩⟩

theorem spiffs_lseek_exact_cached :
    LseekExact (Driver.extent fun _ drv => Spiffs.SpiffsVolume.extent drv.sys) () spiffsSeeking 0
      ⟨0,by decide⟩ ⟨3,by decide⟩ SEEK_SET := by
  have hopen : (spiffsDriver (seekingSpiffs oneHost.Mnt)).HasOpen spiffsSeeking 0 ⟨0,by decide⟩ () :=
    Driver.seekState_open _ _ _ _
  have hfd : plainSpiffs.Open cachedBytes () :=
    ⟨rfl,rfl,by decide,by decide,by decide,fun _ _ => rfl⟩
  have hexact := @spiffs_lseek_exact oneHost (seekingSpiffs oneHost.Mnt) _ _ Unit plainSpiffs id
    (fun _ => ())
    spiffsSeeking 0 ⟨0,by decide⟩ () (seekingSpiffs_seeks oneHost.Mnt () 0) hopen hfd () ⟨3,by decide⟩
    SEEK_SET
  refine hexact.mpr ?_
  show Spiffs.SpiffsVolume.SeekExact plainSpiffs 3 SEEK_SET cachedBytes ()
  rw [Spiffs.SpiffsVolume.SeekExact]
  exact (if_pos rfl).mpr (Or.inr (Or.inl (by decide)))

end UcVfs
