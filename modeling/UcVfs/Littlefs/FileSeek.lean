import UcVfs.Littlefs.Adapter
import UcVfs.Vfs.Seeking
import Mathlib.Data.Nat.Bits

/-!
# Seeking in an open littlefs file

`lfs_file_seek_` of `lfs.c` with `lfs_file_flush` and `lfs_file_flushedwrite`, down to the
functions that find, allocate and program blocks. A seek that leaves the block writes out first,
and the bytes behind the position are copied for that.
-/

namespace UcVfs.Littlefs

open Framework

def LFS_F_WRITING : ℕ := 0x020000
def LFS_F_READING : ℕ := 0x040000
def LFS_F_INLINE : ℕ := 0x100000

def LFS_BLOCK_NULL : ℕ := 0xFFFFFFFF
def LFS_BLOCK_INLINE : ℕ := 0xFFFFFFFE

def LFS_SEEK_SET : Int := 0
def LFS_SEEK_CUR : Int := 1
def LFS_SEEK_END : Int := 2

/-- An error of `lfs.c`. -/
abbrev LfsErr := { err : Int // err < 0 }

/-- `lfs_cache_t`; the bytes of a cache are with the rest of littlefs. -/
structure LfsCache where
  block : ℕ
  off : ℕ
  size : ℕ
  deriving DecidableEq

/-- `lfs_cache_drop`. -/
def LfsCache.drop (rcache : LfsCache) : LfsCache := { rcache with block := LFS_BLOCK_NULL }

structure LfsCtz where
  head : ℕ
  size : ℕ
  deriving DecidableEq

/-- The members of `lfs_file_t` that a seek deals with. -/
structure FileT where
  ctz : LfsCtz
  flags : ℕ
  pos : ℕ
  block : ℕ
  off : ℕ
  cache : LfsCache
  deriving DecidableEq

/-- Sizes and limits of a mounted volume, and what the functions here call. A file object is passed
for the members that a function reads; what it can assign is its result. -/
structure LfsVolume (σ : Type) where
  blockSize : ℕ
  inlineMax : ℕ
  fileMax : ℕ
  rcache : σ → LfsCache
  dropRcache : σ → σ
  /-- The bytes of the file's cache are set. -/
  zeroCache : σ → σ
  allocCkpoint : σ → σ
  ctzFind : FileT → ℕ → σ → (Except LfsErr ℕ × LfsCache) × σ
  ctzExtend : FileT → σ → (Except LfsErr (ℕ × Fin blockSize) × LfsCache) × σ
  relocate : FileT → σ → (Except LfsErr ℕ × LfsCache) × σ
  /-- `lfs_bd_prog`, in another block as long as the block is bad. -/
  bdProg : FileT → List UInt8 → σ → (Except LfsErr Unit × ℕ × LfsCache) × σ
  /-- `lfs_bd_flush`, the same way. -/
  bdFlush : FileT → σ → (Except LfsErr Unit × ℕ × LfsCache) × σ
  /-- `lfs_file_flushedread` of one byte. -/
  flushedread : FileT → σ → (Except LfsErr UInt8 × FileT) × σ

def FileT.raise (file : FileT) (flag : ℕ) : FileT := { file with flags := file.flags ||| flag }

def FileT.clear (file : FileT) (flag : ℕ) : FileT :=
  { file with flags := file.flags &&& (0xFFFFFFFF ^^^ flag) }

def lfsFileSize (file : FileT) : ℕ :=
  if file.flags &&& LFS_F_WRITING ≠ 0 then max file.pos file.ctz.size else file.ctz.size

/-- `lfs_popc`. -/
def lfsPopc (a : ℕ) : ℕ := a.bits.count true

namespace LfsVolume

variable {σ : Type} (v : LfsVolume σ)

/-- The index of the block and the offset in it. -/
def lfsCtzIndex (off : ℕ) : ℕ × ℕ :=
  let size := off
  let b := v.blockSize - 2 * 4
  let i := size / b
  if i = 0 then (0,off)
  else
    let i := (size - 4 * (lfsPopc (i - 1) + 2)) / b
    (i,size - b * i - 4 * lfsPopc i)

def lfsFileOutline (file : FileT) (s : σ) : Except LfsErr Unit × FileT × σ :=
  let file := { file with off := file.pos }
  match v.relocate file (v.allocCkpoint s) with
  | ((.error err,cache),s) => (.error err,{ file with cache := cache },s)
  | ((.ok block,cache),s) =>
    (.ok (),({ file with block := block, cache := cache }.raise LFS_F_WRITING).clear LFS_F_INLINE,s)

/-- The block that a file is extended from. -/
def findBlock (file : FileT) (s : σ) : Except LfsErr Unit × FileT × σ :=
  if file.flags &&& LFS_F_WRITING = 0 ∧ file.pos > 0 then
    match v.ctzFind file (file.pos - 1) s with
    | ((.error err,cache),s) => (.error err,{ file with cache := cache },s)
    | ((.ok block,cache),s) =>
      (.ok (),{ file with block := block, cache := cache.drop },v.zeroCache s)
  else (.ok (),file,s)

/-- Goes on to another block when the last one is full. -/
def newBlock (file : FileT) (s : σ) : Except LfsErr Unit × FileT × σ :=
  if file.flags &&& LFS_F_WRITING = 0 ∨ file.off = v.blockSize then
    if file.flags &&& LFS_F_INLINE = 0 then
      match v.findBlock file s with
      | (.error err,file,s) => (.error err,file.raise LFS_F_ERRED,s)
      | (.ok _,file,s) =>
        match v.ctzExtend file (v.allocCkpoint s) with
        | ((.error err,cache),s) => (.error err,{ file with cache := cache }.raise LFS_F_ERRED,s)
        | ((.ok (block,off),cache),s) =>
          (.ok (),{ file with block := block, off := off, cache := cache }.raise LFS_F_WRITING,s)
    else
      (.ok (),{ file with block := LFS_BLOCK_INLINE, off := file.pos }.raise LFS_F_WRITING,s)
  else (.ok (),file,s)

/-- The loop of `lfs_file_flushedwrite`; a round writes at least a byte. -/
def writeLoop : ℕ → List UInt8 → FileT → σ → Except LfsErr Unit × FileT × σ
  | 0,_,file,s => (.ok (),file,s)
  | fuel + 1,data,file,s =>
    if data.length > 0 then
      match v.newBlock file s with
      | (.error err,file,s) => (.error err,file,s)
      | (.ok _,file,s) =>
        let diff := min data.length (v.blockSize - file.off)
        match v.bdProg file (data.take diff) s with
        | ((.error err,block,cache),s) =>
          (.error err,{ file with block := block, cache := cache }.raise LFS_F_ERRED,s)
        | ((.ok _,block,cache),s) =>
          writeLoop fuel (data.drop diff)
            { file with pos := file.pos + diff, off := file.off + diff, block := block, cache := cache }
            (v.allocCkpoint s)
    else (.ok (),file,s)

def lfsFileFlushedwrite (data : List UInt8) (file : FileT) (s : σ) :
    Except LfsErr ℕ × FileT × σ :=
  let outlined :=
    if file.flags &&& LFS_F_INLINE ≠ 0 ∧ max (file.pos + data.length) file.ctz.size > v.inlineMax then
      v.lfsFileOutline file s
    else (.ok (),file,s)
  match outlined with
  | (.error err,file,s) => (.error err,file.raise LFS_F_ERRED,s)
  | (.ok _,file,s) =>
    match v.writeLoop data.length data file s with
    | (.error err,file,s) => (.error err,file,s)
    | (.ok _,file,s) => (.ok data.length,file,s)

/-- Copies over anything after the current branch. -/
def copyTail : ℕ → FileT → FileT → σ → Except LfsErr Unit × FileT × σ
  | 0,_,file,s => (.ok (),file,s)
  | fuel + 1,orig,file,s =>
    if file.pos < file.ctz.size then
      match v.flushedread orig s with
      | ((.error err,_),s) => (.error err,file,s)
      | ((.ok data,orig),s) =>
        match v.lfsFileFlushedwrite [data] file s with
        | (.error err,file,s) => (.error err,file,s)
        | (.ok _,file,s) =>
          -- keep our reference to the rcache in sync
          if (v.rcache s).block ≠ LFS_BLOCK_NULL then
            copyTail fuel { orig with cache := orig.cache.drop } file (v.dropRcache s)
          else copyTail fuel orig file s
    else (.ok (),file,s)

/-- Everything that has been written, on the disk. -/
def writeOut (file : FileT) (s : σ) : Except LfsErr Unit × FileT × σ :=
  if file.flags &&& LFS_F_INLINE = 0 then
    let orig : FileT := ⟨file.ctz,LFS_O_RDONLY,file.pos,0,0,v.rcache s⟩
    match v.copyTail (file.ctz.size - file.pos) orig file (v.dropRcache s) with
    | (.error err,file,s) => (.error err,file,s)
    | (.ok _,file,s) =>
      match v.bdFlush file s with
      | ((res,block,cache),s) => (res,{ file with block := block, cache := cache },s)
  else (.ok (),{ file with pos := max file.pos file.ctz.size },s)

/-- What was read is dropped. -/
def dropReads (file : FileT) : FileT :=
  if file.flags &&& LFS_F_READING ≠ 0 then
    let file := if file.flags &&& LFS_F_INLINE = 0 then { file with cache := file.cache.drop } else file
    file.clear LFS_F_READING
  else file

def lfsFileFlush (file : FileT) (s : σ) : Except LfsErr Unit × FileT × σ :=
  let file := dropReads file
  if file.flags &&& LFS_F_WRITING ≠ 0 then
    let pos := file.pos
    match v.writeOut file s with
    | (.error err,file,s) => (.error err,file,s)
    | (.ok _,file,s) =>
      -- actual file updates
      let file := ({ file with ctz := ⟨file.block,file.pos⟩ }.clear LFS_F_WRITING).raise LFS_F_DIRTY
      (.ok (),{ file with pos := pos },s)
  else (.ok (),file,s)

/-- The new position, as an unsigned number. -/
def seekPos (off whence : Int) (file : FileT) : ℕ :=
  let npos : Int :=
    if whence = LFS_SEEK_SET then off
    else if whence = LFS_SEEK_CUR then file.pos + off
    else if whence = LFS_SEEK_END then lfsFileSize file + off
    else file.pos
  (npos % 2 ^ 32).toNat

/-- If we are only reading and the new offset is still in the file's cache: the offset in the
block. -/
def inCache (file : FileT) (npos : ℕ) : Option ℕ :=
  if file.flags &&& LFS_F_READING ≠ 0 ∧ file.off ≠ v.blockSize then
    let (oindex,_) := v.lfsCtzIndex file.pos
    let (nindex,noff) := v.lfsCtzIndex npos
    if oindex = nindex ∧ noff ≥ file.cache.off ∧ noff < file.cache.off + file.cache.size then some noff
    else none
  else none

def lfsFileSeek (off whence : Int) (file : FileT) (s : σ) : Int × FileT × σ :=
  let npos := seekPos off whence file
  if npos > v.fileMax then (LFS_ERR_INVAL,file,s)
  -- noop - position has not changed
  else if file.pos = npos then (npos,file,s)
  else
    match v.inCache file npos with
    | some noff => (npos,{ file with pos := npos, off := noff },s)
    | none =>
      match v.lfsFileFlush file s with
      | (.error err,file,s) => (err,file,s)
      | (.ok _,file,s) => (npos,{ file with pos := npos },s)

/-! ### What writing out leaves -/

/-- The file is being written, in blocks of its own. -/
structure Writing (file : FileT) : Prop where
  writing : file.flags &&& LFS_F_WRITING ≠ 0
  outside : file.flags &&& LFS_F_INLINE = 0
  off : file.off ≤ v.blockSize

section Writing

variable {v} {file : FileT} {s : σ}

theorem Writing.size (h : v.Writing file) : lfsFileSize file = max file.pos file.ctz.size :=
  if_pos h.writing

/-- Setting a flag that is neither of the two changes nothing here. -/
theorem Writing.raise (h : v.Writing file) {flag : ℕ} (hflag : flag &&& LFS_F_INLINE = 0) :
    v.Writing (file.raise flag) := by
  refine ⟨?_,?_,h.off⟩
  · exact (anyFlag_lor _ _ _).mpr (Or.inl h.writing)
  · have hnone : ¬AnyFlag (file.flags ||| flag) LFS_F_INLINE := by
      rw [anyFlag_lor]
      simp [AnyFlag,h.outside,hflag]
    exact not_not.mp hnone

theorem newBlock_spec (h : v.Writing file) (s : σ) {r : Except LfsErr Unit} {file' : FileT} {s' : σ}
    (hnew : v.newBlock file s = (r,file',s')) :
    v.Writing file' ∧ file'.pos = file.pos ∧ file'.ctz = file.ctz ∧
      (r = .ok () → file'.off < v.blockSize) := by
  have hfind : v.findBlock file s = (.ok (),file,s) := if_neg fun hn => h.writing hn.1
  by_cases hfull : file.off = v.blockSize
  · rw [newBlock,if_pos (Or.inr hfull),if_pos h.outside,hfind] at hnew
    cases hext : v.ctzExtend file (v.allocCkpoint s) with
    | mk ans s₁ =>
      obtain ⟨res,cache⟩ := ans
      simp only [hext] at hnew
      cases res with
      | error err =>
        obtain ⟨rfl,rfl,rfl⟩ := hnew
        have hw : v.Writing { file with cache := cache } := ⟨h.writing,h.outside,h.off⟩
        exact ⟨hw.raise (by decide),rfl,rfl,fun hr => absurd hr (by simp)⟩
      | ok place =>
        obtain ⟨block,off⟩ := place
        obtain ⟨rfl,rfl,rfl⟩ := hnew
        have hw : v.Writing { file with block := block, off := off, cache := cache } :=
          ⟨h.writing,h.outside,off.isLt.le⟩
        exact ⟨hw.raise (by decide),rfl,rfl,fun _ => off.isLt⟩
  · rw [newBlock,if_neg (not_or.mpr ⟨h.writing,hfull⟩)] at hnew
    obtain ⟨rfl,rfl,rfl⟩ := hnew
    exact ⟨h,rfl,rfl,fun _ => lt_of_le_of_ne h.off hfull⟩

/-- One byte is written, or none. -/
theorem flushedwrite_one (h : v.Writing file) (data : UInt8) (s : σ) {r : Except LfsErr ℕ}
    {file' : FileT} {s' : σ} (hwrite : v.lfsFileFlushedwrite [data] file s = (r,file',s')) :
    v.Writing file' ∧ file'.ctz = file.ctz ∧
      file'.pos = if r.isOk then file.pos + 1 else file.pos := by
  rw [lfsFileFlushedwrite,if_neg fun hn => hn.1 h.outside] at hwrite
  simp only [List.length_singleton,writeLoop,gt_iff_lt,Nat.zero_lt_one,if_true] at hwrite
  cases hnew : v.newBlock file s with
  | mk res rest =>
    obtain ⟨file₁,s₁⟩ := rest
    obtain ⟨hw,hpos,hctz,hroom⟩ := newBlock_spec h s hnew
    rw [hnew] at hwrite
    cases res with
    | error err =>
      obtain ⟨rfl,rfl,rfl⟩ := hwrite
      exact ⟨hw,hctz,hpos⟩
    | ok _ =>
      have hdiff : min 1 (v.blockSize - file₁.off) = 1 := by
        have hlt := hroom rfl
        omega
      simp only [hdiff] at hwrite
      cases hprog : v.bdProg file₁ ([data].take 1) s₁ with
      | mk ans s₂ =>
        obtain ⟨res,block,cache⟩ := ans
        rw [hprog] at hwrite
        cases res with
        | error err =>
          obtain ⟨rfl,rfl,rfl⟩ := hwrite
          have hw' : v.Writing { file₁ with block := block, cache := cache } :=
            ⟨hw.writing,hw.outside,hw.off⟩
          exact ⟨hw'.raise (by decide),hctz,hpos⟩
        | ok _ =>
          obtain ⟨rfl,rfl,rfl⟩ := hwrite
          exact ⟨⟨hw.writing,hw.outside,hroom rfl⟩,hctz,congrArg (· + 1) hpos⟩

/-- The position goes to the end of the file, or stops before it with an error. -/
theorem copyTail_spec (fuel : ℕ) (orig : FileT) (h : v.Writing file) (s : σ)
    (hfuel : file.ctz.size ≤ file.pos + fuel) {r : Except LfsErr Unit} {file' : FileT} {s' : σ}
    (hcopy : v.copyTail fuel orig file s = (r,file',s')) :
    v.Writing file' ∧ file'.ctz = file.ctz ∧ file.pos ≤ file'.pos ∧
      file'.pos ≤ max file.pos file.ctz.size ∧
      (r = .ok () → file'.pos = max file.pos file.ctz.size) := by
  induction fuel generalizing orig file s with
  | zero =>
    obtain ⟨rfl,rfl,rfl⟩ := hcopy
    exact ⟨h,rfl,le_rfl,le_max_left _ _,fun _ => (max_eq_left hfuel).symm⟩
  | succ fuel ih =>
    rw [copyTail] at hcopy
    by_cases hmore : file.pos < file.ctz.size
    · rw [if_pos hmore] at hcopy
      cases hread : v.flushedread orig s with
      | mk ans s₁ =>
        obtain ⟨res,orig₁⟩ := ans
        rw [hread] at hcopy
        cases res with
        | error err =>
          obtain ⟨rfl,rfl,rfl⟩ := hcopy
          exact ⟨h,rfl,le_rfl,le_max_left _ _,fun hr => absurd hr (by simp)⟩
        | ok data =>
          cases hwrite : v.lfsFileFlushedwrite [data] file s₁ with
          | mk res rest =>
            obtain ⟨file₂,s₂⟩ := rest
            obtain ⟨hw,hctz,hpos⟩ := flushedwrite_one h data s₁ hwrite
            simp only [hwrite] at hcopy
            cases res with
            | error err =>
              obtain ⟨rfl,rfl,rfl⟩ := hcopy
              have hpos : file'.pos = file.pos := hpos
              exact ⟨hw,hctz,hpos.ge,hpos.le.trans (le_max_left _ _),fun hr => absurd hr (by simp)⟩
            | ok _ =>
              have hpos : file₂.pos = file.pos + 1 := hpos
              have hrest : ∃ orig₂ s₃,v.copyTail fuel orig₂ file₂ s₃ = (r,file',s') := by
                by_cases hsync : (v.rcache s₂).block ≠ LFS_BLOCK_NULL
                · exact ⟨_,_,(if_pos hsync).symm.trans hcopy⟩
                · exact ⟨_,_,(if_neg hsync).symm.trans hcopy⟩
              obtain ⟨orig₂,s₃,hcopy⟩ := hrest
              have hleft : file₂.ctz.size ≤ file₂.pos + fuel := by
                rw [hctz,hpos]
                omega
              obtain ⟨hw',hctz',hle,hmax,hend⟩ := ih orig₂ hw s₃ hleft hcopy
              rw [hctz,hpos] at hmax hend
              refine ⟨hw',hctz'.trans hctz,by omega,by omega,fun hr => ?_⟩
              have hat := hend hr
              omega
    · rw [if_neg hmore] at hcopy
      obtain ⟨rfl,rfl,rfl⟩ := hcopy
      exact ⟨h,rfl,le_rfl,le_max_left _ _,fun _ => (max_eq_left (not_lt.mp hmore)).symm⟩

end Writing

/-- The object of an open file, within the limits of littlefs. -/
structure Open (file : FileT) : Prop where
  fileMax : v.fileMax < 2 ^ 31
  pos : file.pos ≤ v.fileMax
  size : lfsFileSize file ≤ v.fileMax
  off : file.flags &&& LFS_F_WRITING ≠ 0 → file.flags &&& LFS_F_INLINE = 0 → file.off ≤ v.blockSize

/-- Position and length. -/
def extent (file : FileT) : Extent := ⟨file.pos,lfsFileSize file⟩

/-- A seek that has the file written out: it is not refused, leads to another place and is not
served from the cache. -/
def SeekFlushes (off whence : Int) (file : FileT) : Prop :=
  seekPos off whence file ≤ v.fileMax ∧ file.pos ≠ seekPos off whence file ∧
    v.inCache file (seekPos off whence file) = none

section Seek

variable {v} {file : FileT} {s : σ}

/-- Only the cache and the one flag change. -/
theorem dropReads_spec (file : FileT) :
    (dropReads file).pos = file.pos ∧ (dropReads file).ctz = file.ctz ∧
      (dropReads file).off = file.off ∧
      (dropReads file).flags &&& LFS_F_WRITING = file.flags &&& LFS_F_WRITING ∧
      (dropReads file).flags &&& LFS_F_INLINE = file.flags &&& LFS_F_INLINE := by
  have hmask : ∀ w flag,(0xFFFFFFFF ^^^ LFS_F_READING) &&& flag = flag →
      w &&& (0xFFFFFFFF ^^^ LFS_F_READING) &&& flag = w &&& flag := by
    intro w flag hflag
    rw [Nat.and_assoc,hflag]
  unfold dropReads
  by_cases hreading : file.flags &&& LFS_F_READING ≠ 0
  · rw [if_pos hreading]
    by_cases hinline : file.flags &&& LFS_F_INLINE = 0
    · rw [if_pos hinline]
      exact ⟨rfl,rfl,rfl,hmask _ _ (by decide),hmask _ _ (by decide)⟩
    · rw [if_neg hinline]
      exact ⟨rfl,rfl,rfl,hmask _ _ (by decide),hmask _ _ (by decide)⟩
  · rw [if_neg hreading]
    exact ⟨rfl,rfl,rfl,rfl,rfl⟩

/-- Written out, the file ends where it did; an error leaves it being written. -/
theorem writeOut_spec (hwriting : file.flags &&& LFS_F_WRITING ≠ 0)
    (hoff : file.flags &&& LFS_F_INLINE = 0 → file.off ≤ v.blockSize) (s : σ)
    {r : Except LfsErr Unit} {file' : FileT} {s' : σ} (hout : v.writeOut file s = (r,file',s')) :
    (r = .ok () → file'.pos = max file.pos file.ctz.size) ∧
      lfsFileSize file' = max file.pos file.ctz.size := by
  rw [writeOut] at hout
  by_cases hinline : file.flags &&& LFS_F_INLINE = 0
  · rw [if_pos hinline] at hout
    have hw : v.Writing file := ⟨hwriting,hinline,hoff hinline⟩
    cases hcopy : v.copyTail (file.ctz.size - file.pos)
        ⟨file.ctz,LFS_O_RDONLY,file.pos,0,0,v.rcache s⟩ file (v.dropRcache s) with
    | mk res rest =>
      obtain ⟨file₁,s₁⟩ := rest
      obtain ⟨hw₁,hctz,hle,hmax,hend⟩ := copyTail_spec _ _ hw _ (by omega) hcopy
      have hsize : lfsFileSize file₁ = max file.pos file.ctz.size := by
        rw [hw₁.size,hctz]
        omega
      simp only [hcopy] at hout
      cases res with
      | error err =>
        obtain ⟨rfl,rfl,rfl⟩ := hout
        exact ⟨fun hr => absurd hr (by simp),hsize⟩
      | ok _ =>
        cases hbd : v.bdFlush file₁ s₁ with
        | mk ans s₂ =>
          obtain ⟨res,block,cache⟩ := ans
          simp only [hbd] at hout
          obtain ⟨rfl,rfl,rfl⟩ := hout
          exact ⟨fun _ => hend rfl,hsize⟩
  · rw [if_neg hinline] at hout
    obtain ⟨rfl,rfl,rfl⟩ := hout
    refine ⟨fun _ => rfl,?_⟩
    have hsize : lfsFileSize { file with pos := max file.pos file.ctz.size } =
        max (max file.pos file.ctz.size) file.ctz.size := if_pos hwriting
    rw [hsize]
    omega

/-- Length and position stay, except for the position when an error comes up. -/
theorem lfsFileFlush_spec (h : v.Open file) (s : σ) {r : Except LfsErr Unit} {file' : FileT} {s' : σ}
    (hflush : v.lfsFileFlush file s = (r,file',s')) :
    lfsFileSize file' = lfsFileSize file ∧ (r = .ok () → file'.pos = file.pos) := by
  obtain ⟨hpos,hctz,hoff,hwriting,hinline⟩ := dropReads_spec file
  rw [lfsFileFlush] at hflush
  by_cases hw : file.flags &&& LFS_F_WRITING ≠ 0
  · have hsize : lfsFileSize file = max file.pos file.ctz.size := if_pos hw
    have hw' : (dropReads file).flags &&& LFS_F_WRITING ≠ 0 := hwriting ▸ hw
    have hroom : (dropReads file).flags &&& LFS_F_INLINE = 0 → (dropReads file).off ≤ v.blockSize := by
      rw [hinline,hoff]
      exact h.off hw
    simp only [if_pos hw'] at hflush
    cases hout : v.writeOut (dropReads file) s with
    | mk res rest =>
      obtain ⟨file₁,s₁⟩ := rest
      obtain ⟨hend,hkept⟩ := writeOut_spec hw' hroom s hout
      rw [hpos,hctz,← hsize] at hend hkept
      rw [hout] at hflush
      cases res with
      | error err =>
        obtain ⟨rfl,rfl,rfl⟩ := hflush
        exact ⟨hkept,fun hr => absurd hr (by simp)⟩
      | ok _ =>
        obtain ⟨rfl,rfl,rfl⟩ := hflush
        refine ⟨?_,fun _ => hpos⟩
        have hdone : ¬((file₁.flags &&& (0xFFFFFFFF ^^^ LFS_F_WRITING) ||| LFS_F_DIRTY) &&&
            LFS_F_WRITING ≠ 0) := by
          rw [Nat.and_or_distrib_right,Nat.and_assoc]
          simp [LFS_F_WRITING,LFS_F_DIRTY]
        exact (if_neg hdone).trans (hend rfl)
  · have hw' : ¬((dropReads file).flags &&& LFS_F_WRITING ≠ 0) := hwriting ▸ hw
    simp only [if_neg hw'] at hflush
    obtain ⟨rfl,rfl,rfl⟩ := hflush
    have hsize : lfsFileSize (dropReads file) = lfsFileSize file := by
      rw [lfsFileSize,lfsFileSize,if_neg hw,if_neg hw',hctz]
    exact ⟨hsize,fun _ => hpos⟩

/-- The target as the 32-bit number that it becomes; an unknown `whence` stands for no move. -/
theorem seekPos_eq {off whence t : Int} (ht : (extent file).target off whence = some t) :
    seekPos off whence file = (t % 2 ^ 32).toNat := by
  rw [Extent.target] at ht
  rw [seekPos]
  split_ifs at ht with hset hcur hend
  · rw [if_pos (show whence = LFS_SEEK_SET from hset),Option.some.inj ht]
  · rw [if_neg (show ¬whence = LFS_SEEK_SET from hset),
      if_pos (show whence = LFS_SEEK_CUR from hcur),← Option.some.inj ht]
    rfl
  · rw [if_neg (show ¬whence = LFS_SEEK_SET from hset),
      if_neg (show ¬whence = LFS_SEEK_CUR from hcur),
      if_pos (show whence = LFS_SEEK_END from hend),← Option.some.inj ht]
    rfl

theorem seekPos_unknown {off whence : Int} (h : v.Open file)
    (hnone : (extent file).target off whence = none) : seekPos off whence file = file.pos := by
  have hpos := h.pos
  have hmax := h.fileMax
  rw [Extent.target] at hnone
  split_ifs at hnone with hset hcur hend
  rw [seekPos,if_neg (show ¬whence = LFS_SEEK_SET from hset),
    if_neg (show ¬whence = LFS_SEEK_CUR from hcur),if_neg (show ¬whence = LFS_SEEK_END from hend)]
  omega

/-- The target is out of range unless its exact number is a position. -/
theorem target_range {off whence t : Int} (h : v.Open file) (hoff : -2 ^ 31 ≤ off ∧ off < 2 ^ 31)
    (ht : (extent file).target off whence = some t) :
    seekPos off whence file ≤ v.fileMax ↔ 0 ≤ t ∧ t ≤ v.fileMax := by
  have hpos := h.pos
  have hsize := h.size
  have hmax := h.fileMax
  have hrange : -2 ^ 31 ≤ t ∧ t < 2 ^ 32 := by
    rw [Extent.target] at ht
    simp only [extent] at ht
    split_ifs at ht
    all_goals
      cases ht
      omega
  rw [seekPos_eq ht]
  omega
/-- `lfs_file_seek` does what a seek owes, except that it takes an unknown `whence` for no move and
that an error on writing out can leave the position behind the bytes copied so far. -/
theorem lfsFileSeek_sought (h : v.Open file) {off whence : Int} (hoff : -2 ^ 31 ≤ off ∧ off < 2 ^ 31)
    (s : σ) {res : Int} {file' : FileT} {s' : σ}
    (hseek : v.lfsFileSeek off whence file s = (res,file',s')) :
    (extent file).Sought (extent file') off whence (littlefsErrToErrno res) ↔
      ((extent file).target off whence).isSome ∧
        (v.SeekFlushes off whence file → (v.lfsFileFlush file s).2.1.pos = file.pos) := by
  rw [lfsFileSeek] at hseek
  cases ht : (extent file).target off whence with
  | none =>
    have hstay := seekPos_unknown h ht
    have hin : ¬seekPos off whence file > v.fileMax := by
      rw [hstay]
      exact not_lt.mpr h.pos
    simp only [if_neg hin,if_pos hstay.symm] at hseek
    obtain ⟨rfl,rfl,rfl⟩ := hseek
    rw [littlefsErrToErrno_nonneg (Int.natCast_nonneg _)]
    constructor
    · rintro (⟨t,hsome,_⟩ | ⟨hneg,_⟩)
      · rw [ht] at hsome
        cases hsome
      · exact absurd hneg (not_lt.mpr (Int.natCast_nonneg _))
    · intro hno
      exact absurd hno.1 Bool.false_ne_true
  | some t =>
    have hpos := seekPos_eq ht
    have hrange := target_range h hoff ht
    simp only [Option.isSome_some,true_and]
    by_cases hin : seekPos off whence file ≤ v.fileMax
    · have ht0 := (hrange.mp hin).1
      have hnpos : (seekPos off whence file : Int) = t := by
        have hmax := h.fileMax
        have htmax := (hrange.mp hin).2
        rw [hpos]
        omega
      -- every branch but one ends at the target
      have hdone : ∀ file₁ : FileT,file₁.pos = seekPos off whence file →
          (extent file).Sought (extent file₁) off whence
            (littlefsErrToErrno (seekPos off whence file)) := by
        intro file₁ hfile
        rw [littlefsErrToErrno_nonneg (Int.natCast_nonneg _),hnpos]
        exact Or.inl ⟨t,ht,ht0,rfl,(congrArg Nat.cast hfile).trans hnpos⟩
      simp only [if_neg (not_lt.mpr hin)] at hseek
      by_cases hmove : file.pos = seekPos off whence file
      · simp only [if_pos hmove] at hseek
        obtain ⟨rfl,rfl,rfl⟩ := hseek
        exact iff_of_true (hdone file hmove) fun hfl => absurd hmove hfl.2.1
      · simp only [if_neg hmove] at hseek
        cases hcache : v.inCache file (seekPos off whence file) with
        | some noff =>
          simp only [hcache] at hseek
          obtain ⟨rfl,rfl,rfl⟩ := hseek
          refine iff_of_true (hdone _ rfl) fun hfl => ?_
          have hnone := hfl.2.2
          rw [hcache] at hnone
          cases hnone
        | none =>
          have hfl : v.SeekFlushes off whence file := ⟨hin,hmove,hcache⟩
          cases hflush : v.lfsFileFlush file s with
          | mk r rest =>
            obtain ⟨file₁,s₁⟩ := rest
            obtain ⟨hsize,hkept⟩ := lfsFileFlush_spec h s hflush
            simp only [hcache,hflush] at hseek
            cases r with
            | ok _ =>
              obtain ⟨rfl,rfl,rfl⟩ := hseek
              exact iff_of_true (hdone _ rfl) fun _ => hkept rfl
            | error err =>
              obtain ⟨rfl,rfl,rfl⟩ := hseek
              have hneg := littlefsErrToErrno_neg err.property
              constructor
              · rintro (⟨t',_,hnonneg,hres,_⟩ | ⟨_,hsame⟩)
                · exact absurd (hres ▸ hneg) (not_lt.mpr hnonneg)
                · exact fun _ => congrArg Extent.pos hsame
              · intro hstay
                refine Or.inr ⟨hneg,?_⟩
                rw [extent,extent,hstay hfl,hsize]
    · simp only [if_pos (not_le.mp hin)] at hseek
      obtain ⟨rfl,rfl,rfl⟩ := hseek
      exact iff_of_true (Or.inr ⟨by decide,rfl⟩) fun hfl => absurd hfl.1 hin

end Seek

end LfsVolume

end UcVfs.Littlefs
