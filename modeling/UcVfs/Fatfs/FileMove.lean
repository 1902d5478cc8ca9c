import UcVfs.Fatfs.FileWrite

/-!
# Moving in a file

`f_lseek` on an open file: whether the chain is stretched or another sector comes into the buffer,
no byte of the file is lost, and it can be read and written at the new place.
-/

namespace UcVfs.Fatfs

open Framework

section Move

variable {ι : Type} [DecidableEq ι] {g : Geometry} {chains : ι → List ℕ} {i : ι} {cs cs' : List ℕ}
  {n n' : ℕ} {fp : Fil Mem} {fs fs' : FATFS} {validate : Fil Mem → FATFS → FResult}

/-- What following and stretching a chain leaves alone. Only a chain that is stretched makes the FAT
dirty. -/
structure Walked (g : Geometry) (cs : List ℕ) (fs : FATFS) (cs' : List ℕ) (fs' : FATFS) : Prop where
  longer : cs <+: cs'
  same : ∀ a,g.Sectors cs (a / SS) → fs'.view a = fs.view a
  beside : Beside g cs' fs fs'
  quiet : cs' = cs → fs'.wflag = true → fs.wflag = true

theorem Walked.refl (g : Geometry) (cs : List ℕ) (fs : FATFS) : Walked g cs fs cs fs :=
  ⟨List.prefix_rfl,fun _ _ => rfl,.refl g cs fs,fun _ => id⟩

theorem Walked.untouched {cs'' : List ℕ} {fs'' : FATFS} (h : Walked g cs fs cs' fs')
    (hholds : Holds g chains i cs' n' fs') (hle : cs' <+: cs'') (hu : Untouched g fs' fs'')
    (hlooked : cs'' = cs' → Looked g fs' fs'') : Walked g cs fs cs'' fs'' := by
  refine ⟨h.longer.trans hle,
    fun a ha => (hu.same hholds a (Sectors_mono h.longer ha)).trans (h.same a ha),
    h.beside.trans (hu.beside cs'') hle,fun he hd => ?_⟩
  have hsame : cs' = cs := by
    refine (h.longer.eq_of_length_le ?_).symm
    rw [← he]
    exact hle.length_le
  exact h.quiet hsame ((hlooked (he.trans hsame.symm)).kept.quiet hd)

/-- The file object of an open file is where a seek can start from. -/
theorem Opened.stands (validate : Fil Mem → FATFS → FResult) (h : Opened g chains i cs n fp fs) :
    (g.volume validate).Stands fp cs :=
  ⟨h.sclust,h.within,h.covered,h.clust,fun hdirty => h.sect.resolve_left fun hd => hd.2 hdirty⟩

/-- A seek fills the buffer the way a read does. -/
theorem volume_fillBuf {sect : ℕ} (hne : fp.sect ≠ sect) :
    (g.volume validate).fillBuf sect fp fs = FATFS.loadSector sect fp fs := by
  have hflush : (g.volume validate).flushBuf fp fs = FATFS.flushBuf fp fs := by
    rw [FatVolume.flushBuf,FATFS.flushBuf]
    by_cases hdirty : fp.flag &&& FA_DIRTY ≠ 0
    · rw [if_pos hdirty,if_pos hdirty]
      rcases hwrite : fs.write fp.buf fp.sect 1 with ⟨_ | _,fs'⟩ <;>
        simp [Geometry.volume,hwrite]
    · rw [if_neg hdirty,if_neg hdirty]
  rw [FatVolume.fillBuf,FATFS.loadSector,if_pos hne,hflush]
  rcases FATFS.flushBuf fp fs with ⟨res | _,fp₁,fs₁⟩
  · rfl
  · rcases hread : fs₁.read fp₁.buf sect 1 with ⟨_ | _,buf⟩ <;> simp [Geometry.volume,hread]

/-- What a seek does: the pointer is at another place, behind more clusters if there were too few,
and the bytes are what they were. -/
structure MovesTo (g : Geometry) (chains : ι → List ℕ) (i : ι) (cs : List ℕ) (n stop : ℕ)
    (fp : Fil Mem) (fs : FATFS) (cs' : List ℕ) (n' : ℕ) (fp' : Fil Mem) (fs' : FATFS) : Prop where
  grown : Grown cs cs' n n'
  fptr : fp'.fptr = stop
  objsize : fp'.objsize = max fp.objsize stop
  mode : mode fp'.flag = if fp.objsize < stop then mode fp.flag ||| FA_MODIFIED else mode fp.flag
  dirty : AnyFlag fp'.flag FA_DIRTY → AnyFlag fp.flag FA_DIRTY
  opened : Opened g chains i cs' n' fp' fs'
  content : ∀ o < cs.length * g.bcs,g.content cs' fp' fs' o = g.content cs fp fs o
  beside : Beside g cs' fs fs'
  short : stop ≤ cs.length * g.bcs → cs' = cs ∧ (fs'.wflag = true → fs.wflag = true)

/-- The sector of the pointer comes into the buffer when it is inside of a sector. -/
theorem Buffered.arrive (validate : Fil Mem → FATFS → FResult)
    (h : Buffered g chains i cs n fp fs) {nsect : ℕ}
    (hsect : fp.fptr % SS ≠ 0 → g.Sectors cs nsect) :
    ∃ flag buf sect fs',(g.volume validate).arrive nsect fp fs =
        (.ok,{ fp with flag := flag, buf := buf, sect := sect },fs') ∧
      (fp.fptr % SS ≠ 0 → sect = nsect) ∧ mode flag = mode fp.flag ∧
      (AnyFlag flag FA_DIRTY → AnyFlag fp.flag FA_DIRTY) ∧
      Buffered g chains i cs n { fp with flag := flag, buf := buf, sect := sect } fs' ∧
      Fil.shown { fp with flag := flag, buf := buf, sect := sect } fs'.view = fp.shown fs.view ∧
      Beside g cs fs fs' ∧ fs'.wflag = fs.wflag := by
  rw [FatVolume.arrive]
  by_cases hload : fp.fptr % SS ≠ 0 ∧ nsect ≠ fp.sect
  · obtain ⟨flag,buf,fs',hcall,hmode,hdirty,hbuf,hshown,hbeside,hwflag⟩ := h.loadSector (hsect hload.1)
    rw [if_pos hload,volume_fillBuf hload.2.symm,hcall]
    exact ⟨flag,buf,nsect,fs',rfl,fun _ => rfl,hmode,hdirty,hbuf,hshown,hbeside,hwflag⟩
  · rw [if_neg hload]
    refine ⟨fp.flag,fp.buf,fp.sect,fs,rfl,fun hmod => ?_,rfl,id,h,rfl,.refl g cs fs,rfl⟩
    exact (not_not.mp fun hne => hload ⟨hmod,hne⟩).symm

/-- `f_lseek` stops at the target or at the limit, with the sector in the buffer. -/
theorem Opened.fLseek (h : Opened g chains i cs n fp fs)
    (hok : (g.volume validate).check fp fs = .ok) (ofs : ℕ) :
    ∃ cs' n' fp' fs',(g.volume validate).fLseek ofs fp fs = (.ok,fp',fs') ∧
      MovesTo g chains i cs n (min ofs ((g.volume validate).limit fp cs n)) fp fs cs' n' fp' fs' := by
  have hstands := h.stands validate
  have hwalks := g.volume_walks validate chains i (P := Walked g cs fs)
    fun hholds _ hle hu hlooked hw => hw.untouched hholds hle hu hlooked
  obtain ⟨ofs',hofs,hread,hmin⟩ := hstands.clip n ofs
  obtain ⟨nsect,clust,sclust,fs₁,cs₁,n₁,hmove,⟨hholds,hwalked⟩,hlonger,hroom,hneeded,hmoved⟩ :=
    hwalks.moveTo ⟨h.holds,.refl g cs fs⟩ hstands hread
  rw [hmin] at hmove hmoved hneeded
  simp only [FatVolume.fLseek,hok,ne_eq,not_true_eq_false,if_false,hofs,hmove]
  generalize min ofs ((g.volume validate).limit fp cs n) = stop at hmove hmoved hneeded ⊢
  have hbuf := h.toBuffered.same hwalked.same hlonger hholds
  -- the file grows when the pointer is beyond its end
  obtain ⟨objsize,flag,hgrow,hsize,hmode,hdirty⟩ : ∃ objsize flag,
      (if stop > fp.objsize then { fp with
          objsize := stop, sclust := sclust, flag := fp.flag ||| FA_MODIFIED, fptr := stop,
          clust := clust }
        else { fp with fptr := stop, clust := clust, sclust := sclust }) =
        { fp with
          fptr := stop, clust := clust, sclust := sclust, objsize := objsize, flag := flag } ∧
      objsize = max fp.objsize stop ∧
      mode flag = (if fp.objsize < stop then mode fp.flag ||| FA_MODIFIED else mode fp.flag) ∧
      (AnyFlag flag FA_DIRTY ↔ AnyFlag fp.flag FA_DIRTY) := by
    by_cases hlt : stop > fp.objsize
    · exact ⟨_,_,if_pos hlt,(max_eq_right hlt.le).symm,(mode_modified _).trans (if_pos hlt).symm,
        modified_dirty _⟩
    · exact ⟨_,_,if_neg hlt,(max_eq_left (not_lt.mp hlt)).symm,(if_neg hlt).symm,Iff.rfl⟩
  have hbuf₁ : Buffered g chains i cs₁ n₁ { fp with
      fptr := stop, clust := clust, sclust := sclust, objsize := objsize, flag := flag } fs₁ :=
    ⟨hbuf.holds,hbuf.sect.imp_left fun hnone => ⟨hnone.1,fun hd => hnone.2 (hdirty.mp hd)⟩,
      fun hclean => hbuf.copy fun hd => hclean (hdirty.mpr hd)⟩
  have hsect : stop % SS ≠ 0 → nsect = g.place cs₁ stop / SS ∧ g.Sectors cs₁ nsect := by
    intro hmod
    obtain ⟨c,hat,rfl⟩ := hmoved.sect hmod
    exact ⟨(place_div hat).symm,c,List.mem_of_getElem? hat,_,csect_lt g stop,rfl⟩
  obtain ⟨flag',buf,sect,fs',harrive,hloaded,hmode',hdirty',hbuf',hshown,hbeside,hwflag⟩ :=
    hbuf₁.arrive validate fun hmod => (hsect hmod).2
  rw [hgrow,harrive]
  refine ⟨cs₁,n₁,_,fs',rfl,⟨hlonger,hroom⟩,rfl,hsize,hmode'.trans hmode,
    fun hd => hdirty.mp (hdirty' hd),⟨hbuf',h.err,hmoved.sclust,?_,?_,
    hmoved.clust,fun hmod => (hloaded hmod).trans (hsect hmod).1⟩,fun o ho => ?_,
    hwalked.beside.trans hbeside List.prefix_rfl,
    fun hle => ⟨hneeded hle,fun hd => hwalked.quiet (hneeded hle) (hwflag ▸ hd)⟩⟩
  · show stop ≤ objsize
    exact hsize ▸ le_max_right _ _
  · show objsize ≤ cs₁.length * g.bcs
    rw [hsize]
    exact max_le (h.covered.trans (Nat.mul_le_mul_right _ hlonger.length_le)) hmoved.covered
  · refine (congrFun hshown _).trans ?_
    rw [place_longer hlonger ho]
    show (if AnyFlag flag FA_DIRTY ∧ _ then _ else _) = _
    simp only [hdirty]
    exact shown_congr fp (hwalked.same _ (sectors_place ho))

theorem Opened.check (h : Opened g chains i cs n fp fs) (hvalid : validate fp fs = .ok) :
    (g.volume validate).check fp fs = .ok := by
  show (if validate fp fs = .ok then fp.err else validate fp fs) = .ok
  rw [if_pos hvalid,h.err]

/-- What is written is read back, over the FAT, the buffer and the disk, and the other bytes of the
file are what they were. -/
theorem Opened.write_then_read (h : Opened g chains i cs n fp fs)
    (hvalid : ∀ fp fs,validate fp fs = .ok) (haccess : access fp.flag = FA_READ ||| FA_WRITE)
    (data : List UInt8) (hroom : fp.fptr + data.length ≤ (cs.length + n) * g.bcs) (rbuff : Mem) :
    ∃ cs' n' fp₁ fs₁ fp₂ fs₂ rbuff' fp₃ fs₃,
      FATFS.fWrite g validate data.length (memOf data) fp fs = ((.ok,data.length),fp₁,fs₁) ∧
      (g.volume validate).fLseek fp.fptr fp₁ fs₁ = (.ok,fp₂,fs₂) ∧
      FATFS.fRead g validate data.length rbuff fp₂ fs₂ = ((.ok,data.length,rbuff'),fp₃,fs₃) ∧
      bytesFrom rbuff' 0 data.length = data ∧ fp₃.fptr = fp.fptr + data.length ∧
      Opened g chains i cs' n' fp₃ fs₃ ∧ ∀ o < fp.objsize,
        (o < fp.fptr ∨ fp.fptr + data.length ≤ o) → g.content cs' fp₃ fs₃ o = g.content cs fp fs o := by
  have hgranted : ∀ {w bit : ℕ},access w = FA_READ ||| FA_WRITE →
      (FA_READ ||| FA_WRITE) &&& bit = bit → w &&& bit = bit := by
    intro w bit hw hbit
    rw [← hbit,← Nat.and_assoc,← access,hw]
  have hwrite : fp.flag &&& FA_WRITE ≠ 0 := by
    rw [hgranted haccess rfl]
    decide
  obtain ⟨cs₁,n₁,fp₁,fs₁,hcall₁,ht⟩ := h.fWrite (h.check (hvalid fp fs)) hwrite data.length (memOf data)
  rw [min_eq_left (by omega)] at hcall₁ ht
  have hwithin := h.within
  have hsize₁ := ht.objsize
  have hptr₁ := ht.fptr
  have haccess₁ := (access_changed ht.mode).trans haccess
  have hcovered₁ := ht.opened.covered
  obtain ⟨cs₂,n₂,fp₂,fs₂,hcall₂,hm⟩ := ht.opened.fLseek (ht.opened.check (hvalid fp₁ fs₁)) fp.fptr
  -- the pointer goes back to where it was, which takes no cluster
  have hwrite₁ : ¬fp₁.flag &&& FA_WRITE = 0 := by
    rw [hgranted haccess₁ rfl]
    decide
  have hmore : cs₁.length * g.bcs ≤ (cs₁.length + n₁) * g.bcs :=
    Nat.mul_le_mul_right _ (Nat.le_add_right _ _)
  have hstop : min fp.fptr ((g.volume validate).limit fp₁ cs₁ n₁) = fp.fptr := by
    rw [FatVolume.limit,if_neg hwrite₁]
    have hbcs : (g.volume validate).bcs = g.bcs := rfl
    rw [hbcs]
    omega
  rw [hstop] at hm
  have hptr₂ := hm.fptr
  have hsize₂ := hm.objsize
  have hmode₂ := hm.mode
  obtain ⟨rfl,_⟩ := hm.short (by omega)
  rw [if_neg (by omega)] at hmode₂
  have hread : fp₂.flag &&& FA_READ ≠ 0 := by
    rw [hgranted ((access_congr hmode₂).trans haccess₁) rfl]
    decide
  obtain ⟨rbuff',fp₃,fs₃,hcall₃,hg⟩ :=
    hm.opened.fRead (hm.opened.check (hvalid fp₂ fs₂)) hread data.length rbuff
  rw [min_eq_left (by omega)] at hcall₃ hg
  have hcovered₂ := hm.opened.covered
  have hcontent : ∀ o < fp₁.objsize,g.content cs₂ fp₂ fs₂ o =
      memcpy (g.content cs fp fs) fp.fptr (memOf data) 0 data.length o := fun o ho => by
    rw [hm.content o (by omega),ht.content o ho]
  refine ⟨cs₂,n₂,fp₁,fs₁,fp₂,fs₂,rbuff',fp₃,fs₃,hcall₁,hcall₂,hcall₃,bytesFrom_eq fun k hk => ?_,
    by rw [hg.fptr,hptr₂],hg.opened,fun o ho hout => ?_⟩
  · rw [hg.bytes,memcpy_inside hk,hptr₂,hcontent _ (by omega),memcpy_inside hk,Nat.zero_add,
      memOf_getElem? hk]
  · rw [hg.content o (by omega),hcontent o (by omega),memcpy_outside hout]

/-- `validate` of a volume that stays mounted. -/
def staysMounted (_ : Fil Mem) (_ : FATFS) : FResult := .ok

/-- The file of the small volume, open for reading and writing. -/
def tinyFil : Fil Mem :=
  { sclust := 2, objsize := 3, flag := FA_READ ||| FA_WRITE, err := .ok, fptr := 0, clust := 0, sect := 0,
    buf := fun _ => 0 }

theorem tiny_opened : Opened tiny tinyChains (.inl ()) [2] 1 tinyFil tinyFs := by
  have hsame : Function.update tinyChains (.inl ()) [2] = tinyChains :=
    Function.update_eq_self (Sum.inl ()) tinyChains
  have haway : ¬tiny.Sectors [2] 0 := by
    rintro ⟨c,hc,k,_,he⟩
    rw [List.mem_singleton.mp hc] at he
    have hsect : tiny.clst2sect 2 = 3 := by decide
    omega
  refine ⟨⟨⟨by rw [hsame]; exact tiny_allocated,by decide,haway⟩,Or.inl ⟨rfl,by decide⟩,
    fun _ hno => absurd hno haway⟩,
    rfl,rfl,by decide,by decide,fun hpos => absurd hpos (by decide),fun hmid => absurd rfl hmid⟩

theorem Opened.write_then_read_tiny : ∃ cs' n' fp₁ fs₁ fp₂ fs₂ rbuff' fp₃ fs₃,
    FATFS.fWrite tiny staysMounted 2 (memOf [1,2]) tinyFil tinyFs = ((.ok,2),fp₁,fs₁) ∧
    (tiny.volume staysMounted).fLseek 0 fp₁ fs₁ = (.ok,fp₂,fs₂) ∧
    FATFS.fRead tiny staysMounted 2 (fun _ => 0) fp₂ fs₂ = ((.ok,2,rbuff'),fp₃,fs₃) ∧
    bytesFrom rbuff' 0 2 = [1,2] ∧ fp₃.fptr = 0 + 2 ∧ Opened tiny tinyChains (.inl ()) cs' n' fp₃ fs₃ ∧
    ∀ o < 3,(o < 0 ∨ 0 + 2 ≤ o) → tiny.content cs' fp₃ fs₃ o = tiny.content [2] tinyFil tinyFs o :=
  tiny_opened.write_then_read (fun _ _ => rfl) rfl [1,2] (by decide) fun _ => 0

end Move

end UcVfs.Fatfs
