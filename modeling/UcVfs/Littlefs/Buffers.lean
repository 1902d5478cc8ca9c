import UcVfs.Littlefs.Device
import UcVfs.Littlefs.Open

/-!
# The buffers that littlefs is given

Their sizes are fixed when the program is compiled and when `cache_pool` is created. What littlefs
uses of them is in the configuration that `prepare` completes.
-/

namespace UcVfs.Littlefs

def CONFIG_LITTLEFS2_READ_BUFFER_SIZE : UInt32 := CONFIG_PAGE_SIZE * CONFIG_LITTLEFS2_CACHE_PAGES
def CONFIG_LITTLEFS2_PROG_BUFFER_SIZE : UInt32 := CONFIG_PAGE_SIZE * CONFIG_LITTLEFS2_CACHE_PAGES

/-- The arrays of `littlefs2_desc_t`, and the block of `cache_pool` of an open file. -/
inductive Buffer
  | readBuf
  | progBuf
  | lookaheadBuf
  | fileBuf
  deriving DecidableEq

/-- `cache_pool` hands out blocks of at least the size it was created with. -/
structure CachePool where
  blkSize : ℕ
  created : (CONFIG_PAGE_SIZE * CONFIG_LITTLEFS2_CACHE_PAGES).toNat ≤ blkSize

def Buffer.size (pool : CachePool) : Buffer → ℕ
  | .readBuf => CONFIG_LITTLEFS2_READ_BUFFER_SIZE.toNat
  | .progBuf => CONFIG_LITTLEFS2_PROG_BUFFER_SIZE.toNat
  | .lookaheadBuf => CONFIG_LITTLEFS2_LOOKAHEAD_SIZE.toNat
  | .fileBuf => pool.blkSize

/-- The first `len` bytes of a buffer are written. -/
structure Touch where
  buffer : Buffer
  len : UInt32
  deriving DecidableEq

/-- The pointers of `struct lfs_config`. -/
structure CfgBuffers where
  readBuffer : Option Buffer
  progBuffer : Option Buffer
  lookaheadBuffer : Option Buffer

/-- As `prepare` sets them. -/
def preparedBuffers : CfgBuffers where
  readBuffer := if CONFIG_LITTLEFS2_READ_BUFFER_SIZE ≠ 0 then some .readBuf else none
  progBuffer := if CONFIG_LITTLEFS2_PROG_BUFFER_SIZE ≠ 0 then some .progBuf else none
  lookaheadBuffer := some .lookaheadBuf

/-- littlefs is compiled with `LFS_NO_MALLOC`. -/
def lfsMalloc (_size : UInt32) : Option Buffer := none

def lfsCacheZero (cfg : Config) (buffer : Buffer) : Touch := ⟨buffer,cfg.cacheSize⟩

/-- littlefs is compiled with `LFS_NO_ASSERT`: nothing is left of the checks of the sizes. -/
def lfsInit (cfg : Config) (buffers : CfgBuffers) : Int × List Touch :=
  match buffers.readBuffer <|> lfsMalloc cfg.cacheSize with
  | none => (LFS_ERR_NOMEM,[])
  | some rcache =>
    match buffers.progBuffer <|> lfsMalloc cfg.cacheSize with
    | none => (LFS_ERR_NOMEM,[])
    | some pcache =>
      let zeroed := [lfsCacheZero cfg rcache,lfsCacheZero cfg pcache]
      match buffers.lookaheadBuffer <|> lfsMalloc cfg.lookaheadSize with
      | none => (LFS_ERR_NOMEM,zeroed)
      | some _ => (0,zeroed)

/-- `rest` is what follows in `lfs_format_` behind the `memset` of the lookahead buffer. -/
def lfsFormat (cfg : Config) (buffers : CfgBuffers) (rest : Int × List Touch) : Int × List Touch :=
  let (err,touches) := lfsInit cfg buffers
  if err ≠ 0 then (err,touches)
  else
    let lookahead := buffers.lookaheadBuffer.toList.map fun b => ⟨b,cfg.lookaheadSize⟩
    (rest.1,touches ++ lookahead ++ rest.2)

/-- `rest` is the scan of the directory blocks. -/
def lfsMount (cfg : Config) (buffers : CfgBuffers) (rest : Int × List Touch) : Int × List Touch :=
  let (err,touches) := lfsInit cfg buffers
  if err ≠ 0 then (err,touches) else (rest.1,touches ++ rest.2)

/-- `lfs_file_opencfg_` with the buffer that `_open` passes, from "allocate buffer if needed" on. -/
def lfsFileBuffer (cfg : Config) (buffer : Option Buffer) : Int × List Touch :=
  match buffer <|> lfsMalloc cfg.cacheSize with
  | none => (LFS_ERR_NOMEM,[])
  | some cache => (0,[lfsCacheZero cfg cache])

/-- `_format` or `_mount` around the function of littlefs. -/
def Desc.prepareAnd (fs : Desc) (dno : UInt8)
    (call : Config → CfgBuffers → (Int × List Touch) → Int × List Touch) (rest : Int × List Touch) :
    Int × List Touch :=
  let (ret,fs') := prepare fs dno
  if ret ≠ 0 then (-ENODEV,[])
  else
    let (ret,touches) := call fs'.config preparedBuffers rest
    (littlefsErrToErrno ret,touches)

def Desc.format (fs : Desc) (dno : UInt8) (rest : Int × List Touch) : Int × List Touch :=
  fs.prepareAnd dno lfsFormat rest

def Desc.mount (fs : Desc) (dno : UInt8) (rest : Int × List Touch) : Int × List Touch :=
  fs.prepareAnd dno lfsMount rest

/-- A call that has failed without touching a buffer. -/
def FailsUntouched (result : Int × List Touch) : Prop := result.1 < 0 ∧ result.2 = []

/-- The buffers hold what littlefs uses of them, and the sizes go together. -/
structure Desc.BuffersFit (fs : Desc) (pool : CachePool) : Prop where
  caches : ∀ b : Buffer,b ≠ .lookaheadBuf → fs.config.cacheSize.toNat ≤ b.size pool
  lookahead : fs.config.lookaheadSize.toNat ≤ Buffer.lookaheadBuf.size pool
  readSize : fs.config.readSize.toNat ∣ fs.config.cacheSize.toNat
  progSize : fs.config.progSize.toNat ∣ fs.config.cacheSize.toNat
  blockSize : fs.config.cacheSize.toNat ∣ fs.config.blockSize.toNat

/-- The cache size that is used. -/
def Desc.cacheSize (fs : Desc) : ℕ :=
  if fs.config.cacheSize = 0 then 64 else fs.config.cacheSize.toNat

/-- The caches are not larger than a page, and what the owner has set divides them and is divided
by them. -/
structure Desc.Consistent (fs : Desc) : Prop where
  page : fs.cacheSize ≤ 64
  readSize : (if fs.config.readSize = 0 then 64 else fs.config.readSize.toNat) ∣ fs.cacheSize
  progSize : (if fs.config.progSize = 0 then 64 else fs.config.progSize.toNat) ∣ fs.cacheSize
  blockSize : fs.cacheSize ∣ fs.blockSize

section Touches

variable {fs fs' : Desc} {dno : UInt8} {disk : Fin 2} {pool : CachePool} {rest : Int × List Touch}

/-- With the pointers that `prepare` sets littlefs always starts, and it writes both caches. -/
theorem mount_touches (h : prepare fs dno = (0,fs')) : (fs.mount dno rest).2 =
    [⟨.readBuf,fs'.config.cacheSize⟩,⟨.progBuf,fs'.config.cacheSize⟩] ++ rest.2 := by
  rw [Desc.mount,Desc.prepareAnd,h]
  rfl

/-- A descriptor that `prepare` turns down is not used at all. -/
theorem prepareAnd_refused {res : Int} (h : prepare fs dno = (res,fs')) (hres : res ≠ 0)
    (call : Config → CfgBuffers → (Int × List Touch) → Int × List Touch) :
    FailsUntouched (fs.prepareAnd dno call rest) := by
  have hcall : fs.prepareAnd dno call rest = (-ENODEV,[]) := by
    rw [Desc.prepareAnd,h]
    exact if_pos hres
  rw [hcall]
  exact ⟨by decide,rfl⟩

theorem orDefault_toNat (preset byDefault : UInt32) : (orDefault preset byDefault).toNat =
    if preset = 0 then byDefault.toNat else preset.toNat := by
  rw [orDefault]
  split <;> rfl

theorem prepared_cacheSize : (fs.prepared disk).config.cacheSize.toNat = fs.cacheSize :=
  orDefault_toNat fs.config.cacheSize 64

theorem prepared_readSize : (fs.prepared disk).config.readSize.toNat =
    if fs.config.readSize = 0 then 64 else fs.config.readSize.toNat :=
  orDefault_toNat fs.config.readSize 64

theorem prepared_progSize : (fs.prepared disk).config.progSize.toNat =
    if fs.config.progSize = 0 then 64 else fs.config.progSize.toNat :=
  orDefault_toNat fs.config.progSize 64

theorem prepared_buffersFit : (fs.prepared disk).BuffersFit pool ↔ fs.Consistent := by
  have hpool : 64 ≤ pool.blkSize := pool.created
  constructor
  · rintro ⟨hcaches,_,hread,hprog,hblock⟩
    rw [prepared_cacheSize] at hread hprog hblock
    rw [prepared_readSize] at hread
    rw [prepared_progSize] at hprog
    rw [Desc.prepared_blockSize] at hblock
    have hpage := hcaches .readBuf (by decide)
    rw [prepared_cacheSize] at hpage
    exact ⟨hpage,hread,hprog,hblock⟩
  · rintro ⟨hpage,hread,hprog,hblock⟩
    refine ⟨?_,?_,?_,?_,?_⟩
    · intro b hb
      rw [prepared_cacheSize]
      cases b with
      | readBuf => exact hpage
      | progBuf => exact hpage
      | lookaheadBuf => exact absurd rfl hb
      | fileBuf => exact hpage.trans hpool
    · exact Nat.le_refl _
    · rwa [prepared_cacheSize,prepared_readSize]
    · rwa [prepared_cacheSize,prepared_progSize]
    · rwa [prepared_cacheSize,Desc.prepared_blockSize]

/-- In buffers that fit, what littlefs writes when it starts and when it opens a file is inside. -/
theorem Desc.BuffersFit.inside (hfit : fs.BuffersFit pool) :
    ∀ t ∈ (lfsInit fs.config preparedBuffers).2 ++ (lfsFileBuffer fs.config (some .fileBuf)).2,
      t.len.toNat ≤ t.buffer.size pool := by
  intro t ht
  have hmem : t ∈ [⟨.readBuf,fs.config.cacheSize⟩,⟨.progBuf,fs.config.cacheSize⟩,
      (⟨.fileBuf,fs.config.cacheSize⟩ : Touch)] := ht
  simp only [List.mem_cons,List.not_mem_nil,or_false] at hmem
  rcases hmem with rfl | rfl | rfl
  · exact hfit.caches .readBuf (by decide)
  · exact hfit.caches .progBuf (by decide)
  · exact hfit.caches .fileBuf (by decide)

end Touches

/-- Whatever littlefs does behind its start: the buffers fit, or both calls fail before they touch
one, exactly for a consistent descriptor; and in every other case the buffers are written. -/
theorem buffers_suffice {fs fs' : Desc} {dno : UInt8} (h : prepare fs dno = (0,fs'))
    (pool : CachePool) (mounting formatting : Int × List Touch) :
    fs'.BuffersFit pool ∨
        FailsUntouched (fs.mount dno mounting) ∧ FailsUntouched (fs.format dno formatting) ↔
      fs.Consistent := by
  have hnever : ¬FailsUntouched (fs.mount dno mounting) := by
    intro hfail
    have hnone := hfail.2
    rw [mount_touches h] at hnone
    cases hnone
  obtain ⟨disk,_,hfs'⟩ := Desc.prepare_ok h
  have hfit : fs'.BuffersFit pool ↔ fs.Consistent := by
    rw [hfs',prepared_buffersFit]
    constructor <;> exact fun hc => ⟨hc.page,hc.readSize,hc.progSize,hc.blockSize⟩
  constructor
  · rintro (hbuffers | ⟨hmount,_⟩)
    · exact hfit.mp hbuffers
    · exact absurd hmount hnever
  · exact fun hc => Or.inl (hfit.mpr hc)

/-- Reads of 16 bytes, writes of 8, blocks of 512 and caches of 32. -/
def smallCache : Desc := ⟨⟨16,8,512,0,0,32,0⟩,none,0,0,0⟩

/-- A block size and a cache of a whole block. -/
def blockCache : Desc := ⟨⟨0,0,512,0,0,512,0⟩,none,0,0,0⟩

def pagePool : CachePool := ⟨64,by decide⟩

theorem buffers_suffice_preset :
    (prepare smallCache 1).2.BuffersFit pagePool ∨
        FailsUntouched (smallCache.mount 1 (0,[])) ∧ FailsUntouched (smallCache.format 1 (0,[])) :=
  (buffers_suffice rfl pagePool (0,[]) (0,[])).mpr
    ⟨by decide,by decide,by decide,by decide⟩

/-- Mounting writes 512 bytes to each of the two buffers of 64 bytes, and so does formatting. -/
theorem buffers_overrun :
    (prepare blockCache 1).1 = 0 ∧ ¬(prepare blockCache 1).2.BuffersFit pagePool ∧
    blockCache.mount 1 (0,[]) = (0,[⟨.readBuf,512⟩,⟨.progBuf,512⟩]) ∧
    blockCache.format 1 (0,[]) = (0,[⟨.readBuf,512⟩,⟨.progBuf,512⟩,⟨.lookaheadBuf,64⟩]) ∧
    Buffer.readBuf.size pagePool = 64 ∧ Buffer.progBuf.size pagePool = 64 := by
  refine ⟨by decide,?_,by decide,by decide,by decide,by decide⟩
  intro hfit
  have hread := hfit.caches .readBuf (by decide)
  exact absurd hread (by decide)

end UcVfs.Littlefs
