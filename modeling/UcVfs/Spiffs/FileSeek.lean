import UcVfs.Spiffs.Lookup
import UcVfs.Vfs.Seeking

/-!
# Seeking in an open SPIFFS file

`SPIFFS_lseek` of `spiffs_hydrogen.c` with `spiffs_fflush_cache`, down to the functions that write
an object and look its index pages up. The write cache is emptied first, whatever comes of it, and
a target behind the end is clipped.
-/

namespace UcVfs.Spiffs

open Framework

def SPIFFS_ERR_END_OF_OBJECT : Int := -10003
def SPIFFS_ERR_SEEK_BOUNDS : Int := -10040

def SPIFFS_O_DIRECT : ℕ := 1 <<< 5
def SPIFFS_UNDEFINED_LEN : ℕ := 0xFFFFFFFF

/-- The place of a write cache page in its object. -/
structure CachePage where
  offset : ℕ
  size : ℕ
  deriving DecidableEq

/-- The members of `spiffs_fd` that a seek deals with; `cachePage` is the write cache page of the
object, also when another descriptor has brought it in. -/
structure SpiffsFd where
  size : ℕ
  objId : ℕ
  cursorObjixPix : ℕ
  cursorObjixSpix : ℕ
  fdoffset : ℕ
  flags : ℕ
  cachePage : Option CachePage
  deriving DecidableEq

/-- The length that is stored, with nothing written yet as 0. -/
def SpiffsFd.fileSize (fd : SpiffsFd) : ℕ := if fd.size = SPIFFS_UNDEFINED_LEN then 0 else fd.size

/-- The length of the file, with the bytes that wait in the cache. -/
def SpiffsFd.length (fd : SpiffsFd) : ℕ :=
  match fd.cachePage with
  | none => fd.fileSize
  | some page => max fd.fileSize (page.offset + page.size)

/-- The geometry of a mounted volume, and what the functions here call. -/
structure SpiffsVolume (σ : Type) where
  dataPageSize : ℕ
  objHdrIxLen : ℕ
  objIxLen : ℕ
  /-- Configuration, mount and descriptor are looked at. -/
  check : σ → Int
  /-- `spiffs_hydro_write` of a cache page, and the length, index page and its span that the
  descriptor has then. -/
  hydroWrite : SpiffsFd → CachePage → σ → (Int × ℕ × ℕ × ℕ) × σ
  releasePage : SpiffsFd → σ → σ
  setErrCode : Int → σ → σ
  /-- `spiffs_obj_lu_find_id_and_span`. -/
  luFindIdAndSpan : ℕ → ℕ → σ → (Int × ℕ) × σ

namespace SpiffsVolume

variable {σ : Type} (v : SpiffsVolume σ)

def fflushCache (fd : SpiffsFd) (s : σ) : Int × SpiffsFd × σ :=
  if fd.flags &&& SPIFFS_O_DIRECT = 0 then
    match fd.cachePage with
    | none => (SPIFFS_OK,fd,s)
    | some page =>
      let ((res,size,pix,spix),s) := v.hydroWrite fd page s
      let s := if res < SPIFFS_OK then v.setErrCode res s else s
      let fd := { fd with size := size, cursorObjixPix := pix, cursorObjixSpix := spix }
      (res,{ fd with cachePage := none },v.releasePage fd s)
  else (SPIFFS_OK,fd,s)

/-- `SPIFFS_OBJ_IX_ENTRY_SPAN_IX`. -/
def objIxEntrySpanIx (spix : ℕ) : ℕ :=
  if spix < v.objHdrIxLen then 0 else 1 + (spix - v.objHdrIxLen) / v.objIxLen

/-- The span of the index page for the byte before an offset. -/
def seekSpan (offs : ℕ) : ℕ := v.objIxEntrySpanIx ((if offs > 0 then offs - 1 else 0) / v.dataPageSize)

/-- `spiffs_file` is resolved already: the descriptor is handed in and back. -/
def spiffsLseek (offs whence : Int) (fd : SpiffsFd) (s : σ) : Int × SpiffsFd × σ :=
  let res := v.check s
  if res < SPIFFS_OK then (res,fd,v.setErrCode res s)
  else
    let (_,fd,s) := v.fflushCache fd s
    let fileSize := wrapOff fd.fileSize
    let offs :=
      if whence = Driver.SPIFFS_SEEK_CUR then wrapOff (fd.fdoffset + offs)
      else if whence = Driver.SPIFFS_SEEK_END then wrapOff (fileSize + offs)
      else offs
    if offs < 0 then (SPIFFS_ERR_SEEK_BOUNDS,fd,v.setErrCode SPIFFS_ERR_SEEK_BOUNDS s)
    else if offs > fileSize then
      (SPIFFS_ERR_END_OF_OBJECT,{ fd with fdoffset := fileSize.toNat },
        v.setErrCode SPIFFS_ERR_END_OF_OBJECT s)
    else
      let objixSpix := v.seekSpan offs.toNat
      if fd.cursorObjixSpix ≠ objixSpix then
        let ((res,pix),s) := v.luFindIdAndSpan (fd.objId ||| SPIFFS_OBJ_ID_IX_FLAG) objixSpix s
        if res < SPIFFS_OK then (res,fd,v.setErrCode res s)
        else
          (offs,{ fd with cursorObjixSpix := objixSpix, cursorObjixPix := pix, fdoffset := offs.toNat },s)
      else (offs,{ fd with fdoffset := offs.toNat },s)

/-- What is stored once the cache is empty. -/
def stored (fd : SpiffsFd) (s : σ) : ℕ := (v.fflushCache fd s).2.1.fileSize

/-- An open file on a mounted volume: it is not larger than 31 bits tell, and its index pages are
found. -/
structure Open (fd : SpiffsFd) (s : σ) : Prop where
  ready : v.check s = SPIFFS_OK
  cached : fd.flags &&& SPIFFS_O_DIRECT = 0
  fdoffset : fd.fdoffset < 2 ^ 31
  length : fd.length < 2 ^ 31
  stored : v.stored fd s < 2 ^ 31
  found : ∀ offs ≤ v.stored fd s,
    (v.luFindIdAndSpan (fd.objId ||| SPIFFS_OBJ_ID_IX_FLAG) (v.seekSpan offs)
      (v.fflushCache fd s).2.2).1.1 = SPIFFS_OK

/-- Position and length. -/
def extent (fd : SpiffsFd) : Extent := ⟨fd.fdoffset,fd.length⟩

/-- The targets at which a seek does what it owes: with the cache stored in full a target up to the
end or one that is refused, and a negative offset where `whence` is unknown and taken for
`SPIFFS_SEEK_SET`. When bytes of the cache were lost, the end is another and a refusal is late. -/
def SeekExact (offs whence : Int) (fd : SpiffsFd) (s : σ) : Prop :=
  match (extent fd).target offs whence with
  | some t =>
    if v.stored fd s = fd.length then t < 0 ∨ t ≤ fd.length ∨ 2 ^ 31 ≤ t
    else whence ≠ SEEK_END ∧ 0 ≤ t ∧ t ≤ v.stored fd s
  | none => v.stored fd s = fd.length ∧ offs < 0

section Seek

variable {v} {fd : SpiffsFd} {s : σ}

/-- The cache is empty afterwards, and nothing but it and what is stored has changed. -/
theorem fflushCache_spec (hcached : fd.flags &&& SPIFFS_O_DIRECT = 0) {res : Int} {fd' : SpiffsFd}
    {s' : σ} (hflush : v.fflushCache fd s = (res,fd',s')) :
    fd'.cachePage = none ∧ fd'.fdoffset = fd.fdoffset ∧ fd'.objId = fd.objId := by
  rw [fflushCache,if_pos hcached] at hflush
  cases hpage : fd.cachePage with
  | none =>
    simp only [hpage] at hflush
    obtain ⟨rfl,rfl,rfl⟩ := hflush
    exact ⟨hpage,rfl,rfl⟩
  | some page =>
    simp only [hpage] at hflush
    obtain ⟨rfl,rfl,rfl⟩ := hflush
    exact ⟨rfl,rfl,rfl⟩

/-- A seek from the position and the length after the cache was emptied. -/
theorem seek_flushed (h : v.Open fd s) {offs whence : Int} {fd₁ : SpiffsFd} {s₁ : σ} {r : Int}
    (hflush : v.fflushCache fd s = (r,fd₁,s₁)) {t : Int}
    (ht : (if whence = Driver.SPIFFS_SEEK_CUR then wrapOff (fd₁.fdoffset + offs)
      else if whence = Driver.SPIFFS_SEEK_END then wrapOff (wrapOff fd₁.fileSize + offs)
      else offs) = t) :
    ∃ res fd' s',v.spiffsLseek offs whence fd s = (res,fd',s') ∧ fd'.length = v.stored fd s ∧
      (t < 0 ∧ res = SPIFFS_ERR_SEEK_BOUNDS ∧ fd'.fdoffset = fd.fdoffset ∨
        (v.stored fd s : Int) < t ∧ res = SPIFFS_ERR_END_OF_OBJECT ∧ fd'.fdoffset = v.stored fd s ∨
        0 ≤ t ∧ t ≤ v.stored fd s ∧ res = t ∧ (fd'.fdoffset : Int) = t) := by
  obtain ⟨hempty,hpos,hobj⟩ := fflushCache_spec h.cached hflush
  have hstored : v.stored fd s = fd₁.fileSize := by rw [stored,hflush]
  have hlength : ∀ fd' : SpiffsFd,fd'.cachePage = none → fd'.size = fd₁.size →
      fd'.length = v.stored fd s := by
    intro fd' hnone hsize
    rw [SpiffsFd.length,hnone,hstored]
    simp only [SpiffsFd.fileSize,hsize]
  have hsize : wrapOff fd₁.fileSize = fd₁.fileSize :=
    wrapOff_eq (by omega) (by rw [← hstored]; exact_mod_cast h.stored)
  have hready : ¬v.check s < SPIFFS_OK := by
    rw [h.ready]
    decide
  simp only [spiffsLseek,if_neg hready,hflush,ht]
  rw [hsize]
  by_cases hneg : t < 0
  · rw [if_pos hneg]
    exact ⟨_,_,_,rfl,hlength fd₁ hempty rfl,Or.inl ⟨hneg,rfl,hpos⟩⟩
  · rw [if_neg hneg]
    by_cases hend : t > fd₁.fileSize
    · rw [if_pos hend]
      refine ⟨_,_,_,rfl,hlength _ hempty rfl,Or.inr (Or.inl ⟨by omega,rfl,?_⟩)⟩
      rw [Int.toNat_natCast,hstored]
    · rw [if_neg hend]
      have hin : 0 ≤ t ∧ t ≤ v.stored fd s := by omega
      have hto : (t.toNat : Int) = t := Int.toNat_of_nonneg hin.1
      by_cases hspan : fd₁.cursorObjixSpix ≠ v.seekSpan t.toNat
      · have hfound := h.found t.toNat (by omega)
        rw [hflush,← hobj] at hfound
        have hok : ¬(v.luFindIdAndSpan (fd₁.objId ||| SPIFFS_OBJ_ID_IX_FLAG) (v.seekSpan t.toNat)
            s₁).1.1 < SPIFFS_OK := by
          rw [hfound]
          decide
        simp only [if_pos hspan,if_neg hok]
        exact ⟨_,_,_,rfl,hlength _ hempty rfl,Or.inr (Or.inr ⟨hin.1,hin.2,rfl,hto⟩)⟩
      · rw [if_neg hspan]
        exact ⟨_,_,_,rfl,hlength _ hempty rfl,Or.inr (Or.inr ⟨hin.1,hin.2,rfl,hto⟩)⟩

theorem spiffsErrToErrno_nonneg {res : Int} (h : 0 ≤ res) : spiffsErrToErrno res = res := if_pos h

/-- What each outcome means to the caller: a refusal is one if the length has stayed, a target
behind the end is never reached, and any other is reached as it was asked for. -/
theorem sought_outcome {fd' : SpiffsFd} {offs whence res t : Int}
    (hlength : fd'.length = v.stored fd s)
    (hout : t < 0 ∧ res = SPIFFS_ERR_SEEK_BOUNDS ∧ fd'.fdoffset = fd.fdoffset ∨
      (v.stored fd s : Int) < t ∧ res = SPIFFS_ERR_END_OF_OBJECT ∧ fd'.fdoffset = v.stored fd s ∨
      0 ≤ t ∧ t ≤ v.stored fd s ∧ res = t ∧ (fd'.fdoffset : Int) = t) :
    (extent fd).Sought (extent fd') offs whence (spiffsErrToErrno res) ↔
      t < 0 ∧ v.stored fd s = fd.length ∨
      (v.stored fd s : Int) < t ∧ v.stored fd s = 0 ∧ (extent fd).target offs whence = some 0 ∨
      0 ≤ t ∧ t ≤ v.stored fd s ∧ (extent fd).target offs whence = some t := by
  rcases hout with ⟨hneg,rfl,hpos⟩ | ⟨hend,rfl,hpos⟩ | ⟨hnonneg,hle,rfl,hpos⟩
  · have hres : spiffsErrToErrno SPIFFS_ERR_SEEK_BOUNDS < 0 := by decide
    have hsame : extent fd' = extent fd ↔ v.stored fd s = fd.length := by
      simp [extent,hpos,hlength]
    constructor
    · rintro (⟨t',_,hnonneg,he,_⟩ | ⟨_,he⟩)
      · exact absurd (he ▸ hres) (not_lt.mpr hnonneg)
      · exact Or.inl ⟨hneg,hsame.mp he⟩
    · rintro (⟨_,he⟩ | ⟨hend,_⟩ | ⟨hnonneg,_⟩)
      · exact Or.inr ⟨hres,hsame.mpr he⟩
      · omega
      · omega
  · have hres : spiffsErrToErrno SPIFFS_ERR_END_OF_OBJECT = 0 := by decide
    rw [Extent.Sought,hres]
    constructor
    · rintro (⟨t',ht,_,rfl,he⟩ | ⟨hlt,_⟩)
      · have hzero : v.stored fd s = 0 := by
          rw [← hpos]
          exact Int.natCast_eq_zero.mp he
        exact Or.inr (Or.inl ⟨hend,hzero,ht⟩)
      · exact absurd hlt (lt_irrefl 0)
    · rintro (⟨hneg,_⟩ | ⟨_,hzero,ht⟩ | ⟨_,hle,_⟩)
      · omega
      · exact Or.inl ⟨0,ht,le_rfl,rfl,by simp [extent,hpos,hzero]⟩
      · omega
  · rw [Extent.Sought,spiffsErrToErrno_nonneg hnonneg]
    constructor
    · rintro (⟨t',ht,_,rfl,_⟩ | ⟨hneg,_⟩)
      · exact Or.inr (Or.inr ⟨hnonneg,hle,ht⟩)
      · omega
    · rintro (⟨hneg,_⟩ | ⟨hend,_⟩ | ⟨_,_,ht⟩)
      · omega
      · omega
      · exact Or.inl ⟨_,ht,hnonneg,rfl,hpos⟩

/-- `SPIFFS_lseek` with the adapter around it does what a seek owes at the targets of `SeekExact`
and at no others. -/
theorem spiffsLseek_sought (h : v.Open fd s) {offs whence : Int}
    (hoffs : -2 ^ 31 ≤ offs ∧ offs < 2 ^ 31) {res : Int} {fd' : SpiffsFd} {s' : σ}
    (hseek : v.spiffsLseek offs (Driver.seekWhence whence) fd s = (res,fd',s')) :
    (extent fd).Sought (extent fd') offs whence (spiffsErrToErrno res) ↔
      v.SeekExact offs whence fd s := by
  obtain ⟨r,fd₁,s₁,hflush⟩ : ∃ r fd₁ s₁,v.fflushCache fd s = (r,fd₁,s₁) := ⟨_,_,_,rfl⟩
  obtain ⟨_,hpos,_⟩ := fflushCache_spec h.cached hflush
  have hstored : v.stored fd s = fd₁.fileSize := by rw [stored,hflush]
  obtain ⟨t,hcode⟩ : ∃ t,(if Driver.seekWhence whence = Driver.SPIFFS_SEEK_CUR then
      wrapOff (fd₁.fdoffset + offs)
    else if Driver.seekWhence whence = Driver.SPIFFS_SEEK_END then
      wrapOff (wrapOff fd₁.fileSize + offs)
    else offs) = t := ⟨_,rfl⟩
  obtain ⟨res',fd₂,s₂,hrun,hlength,hout⟩ := seek_flushed h hflush hcode
  obtain ⟨rfl,rfl,rfl⟩ : res' = res ∧ fd₂ = fd' ∧ s₂ = s' := by
    rw [hseek,Prod.mk.injEq,Prod.mk.injEq] at hrun
    exact ⟨hrun.1.symm,hrun.2.1.symm,hrun.2.2.symm⟩
  rw [sought_outcome hlength hout,SeekExact]
  have hp := h.fdoffset
  have hl := h.length
  have hs := h.stored
  rw [hpos] at hcode
  by_cases hset : whence = SEEK_SET
  · have htarget : (extent fd).target offs whence = some offs := if_pos hset
    have hsame : t = offs := by
      rw [← hcode,hset]
      rfl
    rw [htarget]
    have hend : whence ≠ SEEK_END := by
      rw [hset]
      decide
    simp only [hsame,Option.some.injEq,hend,ne_eq,not_false_eq_true,true_and,and_true]
    split_ifs <;> omega
  · by_cases hcur : whence = SEEK_CUR
    · have htarget : (extent fd).target offs whence = some (fd.fdoffset + offs) := by
        rw [Extent.target,if_neg hset,if_pos hcur]
        rfl
      have hsame : t = wrapOff (fd.fdoffset + offs) := by
        rw [← hcode,hcur]
        rfl
      have hend : whence ≠ SEEK_END := by
        rw [hcur]
        decide
      rw [htarget]
      simp only [Option.some.injEq,hend,ne_eq,not_false_eq_true,true_and]
      have hwrap := @wrapOff_cases (fd.fdoffset + offs) (by omega) (by omega)
      rw [← hsame] at hwrap
      split_ifs <;> omega
    · by_cases hend : whence = SEEK_END
      · have htarget : (extent fd).target offs whence = some (fd.length + offs) := by
          rw [Extent.target,if_neg hset,if_neg hcur,if_pos hend]
          rfl
        have hsame : t = wrapOff (v.stored fd s + offs) := by
          rw [← hcode,hend,hstored,@wrapOff_eq fd₁.fileSize (by omega) (by omega)]
          rfl
        rw [htarget]
        simp only [Option.some.injEq]
        have hwrap := @wrapOff_cases (v.stored fd s + offs) (by omega) (by omega)
        rw [← hsame] at hwrap
        by_cases hkept : v.stored fd s = fd.length
        · rw [if_pos hkept]
          omega
        · rw [if_neg hkept]
          exact iff_of_false (by omega) fun hbad => hbad.1 hend
      · have htarget : (extent fd).target offs whence = none := by
          rw [Extent.target,if_neg hset,if_neg hcur,if_neg hend]
        have hsame : t = offs := by
          rw [← hcode,Driver.seekWhence,if_neg hset,if_neg hcur,if_neg hend]
          rfl
        rw [htarget,hsame]
        simp only [reduceCtorEq,and_false,or_false]
        omega

end Seek

end SpiffsVolume

end UcVfs.Spiffs
