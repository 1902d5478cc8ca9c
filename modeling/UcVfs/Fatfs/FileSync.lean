import UcVfs.Fatfs.FileMove

/-!
# Putting a file on the disk

`f_sync` of `ff.c`: the buffer, the FAT and the directory entry of the file are written, after which
the disk alone tells what the file is.
-/

namespace UcVfs.Fatfs

open Framework

/-- `GET_FATTIME`: there is no clock. -/
def FATTIME : ℕ := FAT_DATE <<< 16

/-- A mounted volume. Behind the sector that it starts at a FAT32 volume has its FSInfo sector. -/
structure MountedVolume extends Geometry where
  volbase : ℕ
  infoFits : fsType = .fat32 → volbase + 1 < fatbase

/-- The FSInfo sector. -/
def MountedVolume.Info (v : MountedVolume) (sect : ℕ) : Prop :=
  v.fsType = .fat32 ∧ sect = v.volbase + 1

/-- The directory entry of a file: `dir_sect`, and `dir_ptr` as an offset in the window. -/
structure DirPlace (g : Geometry) where
  sect : ℕ
  off : ℕ
  fits : off + 32 ≤ SS
  behind : g.fatbase + g.nFats * g.fsize ≤ sect
  inside : sect < nSects

def DirPlace.addr {g : Geometry} (d : DirPlace g) : ℕ := d.sect * SS + d.off

/-- `ld_clust`, of the entry at `dir`. -/
def Geometry.ldClust (g : Geometry) (m : Mem) (dir : ℕ) : ℕ :=
  let cl := loadLE m (dir + 26) 2
  if g.fsType = .fat32 then cl ||| loadLE m (dir + 20) 2 <<< 16 else cl

/-- `st_clust`. -/
def Geometry.stClust (g : Geometry) (m : Mem) (dir cl : ℕ) : Mem :=
  let m := storeLE m (dir + 26) cl 2
  if g.fsType = .fat32 then storeLE m (dir + 20) (cl >>> 16) 2 else m

namespace FATFS

/-- The FSInfo structure. -/
def fsInfo (fs : FATFS) : Mem :=
  let win := memset fs.win 0 0 SS
  let win := storeLE win 0 0x41615252 4
  let win := storeLE win 484 0x61417272 4
  let win := storeLE win 488 fs.freeClst 4
  let win := storeLE win 492 fs.lastClst 4
  storeLE win 508 0xAA550000 4

/-- `sync_fs`. The RAM disk has nothing to do for `CTRL_SYNC`. -/
def syncFs (v : MountedVolume) (fs : FATFS) : FResult × FATFS :=
  let (res,fs) := fs.syncWindow v.toGeometry
  if res = .ok then
    if fs.fsiFlag = 1 then
      let fs := { fs with fsiFlag := 0 }
      if v.fsType = .fat32 then
        let fs := { fs with win := fs.fsInfo, winsect := v.volbase + 1 }
        (.ok,(fs.write fs.win fs.winsect 1).2)
      else (.ok,fs)
    else (.ok,fs)
  else (res,fs)

/-- The directory entry is brought up to date. -/
def record (g : Geometry) (dir : ℕ) (fp : Fil Mem) (win : Mem) : Mem :=
  let win := storeLE win (dir + 11) ((win (dir + 11)).toNat ||| AM_ARC) 1
  let win := g.stClust win dir fp.sclust
  let win := storeLE win (dir + 28) fp.objsize 4
  let win := storeLE win (dir + 22) FATTIME 4
  storeLE win (dir + 18) 0 2

variable (v : MountedVolume) (validate : Fil Mem → FATFS → FResult)

def fSync (d : DirPlace v.toGeometry) (fp : Fil Mem) (fs : FATFS) : FResult × Fil Mem × FATFS :=
  let res := validate fp fs
  if res = .ok then
    -- is there any change to the file?
    if fp.flag &&& FA_MODIFIED ≠ 0 then
      match flushBuf fp fs with
      | (.error res,fp,fs) => (res,fp,fs)
      | (.ok _,fp,fs) =>
        let (res,fs) := fs.moveWindow v.toGeometry d.sect
        if res = .ok then
          let fs := { fs with win := record v.toGeometry d.off fp fs.win, wflag := true }
          let (res,fs) := fs.syncFs v
          (res,{ fp with flag := fp.flag &&& (0xFF ^^^ FA_MODIFIED) },fs)
        else (res,fp,fs)
    else (.ok,fp,fs)
  else (res,fp,fs)

end FATFS

/-! ### Directory entries -/

section Entry

variable {g : Geometry} {m m' : Mem} {dir cl : ℕ}

/-- A number in an entry, by the bytes of the entry. -/
theorem loadEntry_congr {dir' off n : ℕ} (h : ∀ k < 32,m' (dir' + k) = m (dir + k))
    (hoff : off + n ≤ 32) : loadLE m' (dir' + off) n = loadLE m (dir + off) n := by
  refine loadLE_congr fun k hk => ?_
  rw [Nat.add_assoc,Nat.add_assoc]
  exact h _ (by omega)

theorem ldClust_congr {dir' : ℕ} (h : ∀ k < 32,m' (dir' + k) = m (dir + k)) :
    g.ldClust m' dir' = g.ldClust m dir := by
  rw [Geometry.ldClust,Geometry.ldClust,loadEntry_congr h (by decide),loadEntry_congr h (by decide)]

theorem stClust_outside {a : ℕ} (ha : a < dir + 20 ∨ dir + 28 ≤ a ∨ dir + 22 ≤ a ∧ a < dir + 26) :
    g.stClust m dir cl a = m a := by
  rw [Geometry.stClust]
  split_ifs
  · rw [storeLE_outside (by omega),storeLE_outside (by omega)]
  · exact storeLE_outside (by omega)

/-- The two halves of a cluster number. -/
theorem ldClust_stClust (m : Mem) (dir : ℕ) (hcl : cl < g.nFatent) :
    g.ldClust (g.stClust m dir cl) dir = cl := by
  have hentries := g.entriesOk.2
  rw [Geometry.ldClust,Geometry.stClust]
  by_cases htype : g.fsType = .fat32
  · have hsmall : cl < 2 ^ 32 := by
      rw [htype,FsType.maxFat] at hentries
      omega
    simp only [if_pos htype]
    rw [loadLE_storeLE_outside (by omega),loadLE_storeLE,loadLE_storeLE,Nat.shiftRight_eq_div_pow,
      show 256 ^ 2 = 2 ^ 16 from rfl,Nat.mod_eq_of_lt (a := cl / 2 ^ 16) (by omega),Nat.or_comm,
      ← Nat.shiftLeft_add_eq_or_of_lt (by omega),Nat.shiftLeft_eq]
    omega
  · have hsmall : cl < 2 ^ 16 := by
      cases hfat : g.fsType with
      | fat12 => rw [hfat,FsType.maxFat] at hentries; omega
      | fat16 => rw [hfat,FsType.maxFat] at hentries; omega
      | fat32 => exact absurd hfat htype
    simp only [if_neg htype]
    rw [loadLE_storeLE]
    exact Nat.mod_eq_of_lt hsmall

variable {fp : Fil Mem} {win : Mem}

theorem record_outside {a : ℕ} (ha : a < dir ∨ dir + 32 ≤ a) : FATFS.record g dir fp win a = win a := by
  rw [FATFS.record]
  rw [storeLE_outside (by omega),storeLE_outside (by omega),storeLE_outside (by omega),
    stClust_outside (by omega),storeLE_outside (by omega)]

end Entry

/-- The entry tells where the file is and how long. -/
structure Recorded (g : Geometry) (dir : ℕ) (fp : Fil Mem) (m : Mem) : Prop where
  sclust : g.ldClust m dir = fp.sclust
  objsize : loadLE m (dir + 28) 4 = fp.objsize

section Record

variable {g : Geometry} {m m' : Mem} {dir dir' : ℕ} {fp : Fil Mem}

/-- A recorded file is marked as changed. -/
theorem record_attr (win : Mem) : (FATFS.record g dir fp win (dir + 11)).toNat =
    (win (dir + 11)).toNat ||| AM_ARC := by
  have hbyte := @storeLE_inside win (dir + 11) ((win (dir + 11)).toNat ||| AM_ARC) 1 0 Nat.one_pos
  have hsmall : (win (dir + 11)).toNat ||| AM_ARC < 256 :=
    Nat.or_lt_two_pow (n := 8) (win (dir + 11)).toNat_lt (by decide)
  rw [Nat.add_zero,Nat.pow_zero,Nat.div_one] at hbyte
  rw [FATFS.record,storeLE_outside (by omega),storeLE_outside (by omega),storeLE_outside (by omega),
    stClust_outside (by omega),hbyte,UInt8.toNat_ofNat',Nat.mod_eq_of_lt hsmall]

theorem Recorded.congr (h : Recorded g dir fp m) (hsame : ∀ k < 32,m' (dir' + k) = m (dir + k)) :
    Recorded g dir' fp m' :=
  ⟨(ldClust_congr hsame).trans h.sclust,(loadEntry_congr hsame (by decide)).trans h.objsize⟩

theorem record_recorded (dir : ℕ) (win : Mem) (hsclust : fp.sclust < g.nFatent)
    (hobjsize : fp.objsize < 2 ^ 32) :
    Recorded g dir fp (FATFS.record g dir fp win) := by
  rw [FATFS.record]
  constructor
  · -- the date and the size are beside the cluster number
    generalize storeLE win (dir + 11) _ 1 = win
    have hsame : ∀ a,dir + 20 ≤ a → a < dir + 28 → (a < dir + 22 ∨ dir + 26 ≤ a) →
        storeLE (storeLE (storeLE (g.stClust win dir fp.sclust) (dir + 28) fp.objsize 4) (dir + 22)
          FATTIME 4) (dir + 18) 0 2 a = g.stClust win dir fp.sclust a := by
      intro a hlo hhi hmid
      rw [storeLE_outside (by omega),storeLE_outside (by omega),storeLE_outside (by omega)]
    refine Eq.trans ?_ (ldClust_stClust win dir hsclust)
    rw [Geometry.ldClust,Geometry.ldClust,loadLE_congr fun k hk => hsame _ (by omega) (by omega) (by omega),
      loadLE_congr fun k hk => hsame (dir + 20 + k) (by omega) (by omega) (by omega)]
  · rw [loadLE_storeLE_outside (by omega),loadLE_storeLE_outside (by omega),loadLE_storeLE]
    exact Nat.mod_eq_of_lt hobjsize

end Record

/-! ### Synchronizing -/

section Sync

variable {v : MountedVolume} {fs fs' : FATFS}

/-- The FSInfo sector is before the FAT. -/
theorem info_before {a : ℕ} (ha : v.Info (a / SS)) : a < v.fatbase * SS ∧ a < nSects * SS := by
  have hfit := v.infoFits ha.1
  have hlt : a < (a / SS + 1) * SS := Nat.lt_mul_of_div_lt (Nat.lt_succ_self _) SS_pos
  have hle : (a / SS + 1) * SS ≤ v.fatbase * SS := Nat.mul_le_mul_right SS (by rw [ha.2]; omega)
  have hdisk : v.fatbase * SS ≤ nSects * SS := by
    have hfats := v.fatsFit
    have hdata := v.dataFits
    exact Nat.mul_le_mul_right SS (by omega)
  omega

/-- What synchronizing the volume leaves alone. Nothing is pending behind. -/
structure Settled (v : MountedVolume) (fs fs' : FATFS) : Prop where
  coherent : fs'.Coherent
  clean : fs'.wflag = false
  view : ∀ a < nSects * SS,¬v.InMirror a → ¬v.Info (a / SS) → fs'.view a = fs.view a
  mirrored : Mirrored v.toGeometry fs → Mirrored v.toGeometry fs'
  window : fs'.winsect = fs.winsect ∨ v.Info fs'.winsect
  freeClst : fs'.freeClst = fs.freeClst

/-- The FSInfo sector is written through the window. -/
theorem Settled.info (hkept : Settled v fs fs') (htype : v.fsType = .fat32) (win : Mem) (flag : ℕ) :
    Settled v fs ({ fs' with fsiFlag := flag, win := win, winsect := v.volbase + 1 } |>.write win
      (v.volbase + 1) 1).2 := by
  have hfit := v.infoFits htype
  have hfats := v.fatsFit
  have hdata := v.dataFits
  rw [FATFS.write_sector (by omega)]
  have hwritten : ∀ i < SS,win i =
      memcpy fs'.disk ((v.volbase + 1) * SS) win 0 SS ((v.volbase + 1) * SS + i) := by
    intro i hi
    rw [memcpy_inside hi,Nat.zero_add]
  have hcoherent : FATFS.Coherent { fs' with
      fsiFlag := flag, win := win, winsect := v.volbase + 1,
      disk := memcpy fs'.disk ((v.volbase + 1) * SS) win 0 SS } :=
    ⟨by show v.volbase + 1 < nSects; omega,fun _ => hwritten⟩
  refine ⟨hcoherent,hkept.clean,fun a ha hno hinfo => ?_,fun hm => ⟨fun h => ?_,fun htwo d hd => ?_⟩,
    Or.inr ⟨htype,rfl⟩,hkept.freeClst⟩
  · have hout : a < (v.volbase + 1) * SS ∨ (v.volbase + 1) * SS + SS ≤ a := by
      by_contra hin
      exact hinfo ⟨htype,(Nat.div_eq_iff SS_pos).mpr (by omega)⟩
    rw [hcoherent.view_clean hkept.clean]
    show memcpy fs'.disk ((v.volbase + 1) * SS) win 0 SS a = _
    rw [memcpy_outside hout,← hkept.coherent.view_clean hkept.clean,hkept.view a ha hno hinfo]
  · exact absurd (hkept.clean.symm.trans h) Bool.false_ne_true
  · have hle : (v.volbase + 1 + 1) * SS ≤ v.fatbase * SS := Nat.mul_le_mul_right SS (by omega)
    rw [Nat.succ_mul] at hle
    have hcopies := (hkept.mirrored hm).copies htwo d hd
    have hle' : v.fatbase * SS ≤ (v.fatbase + v.fsize) * SS :=
      Nat.mul_le_mul_right SS (Nat.le_add_right _ _)
    show memcpy fs'.disk _ win 0 SS _ = memcpy fs'.disk _ win 0 SS _
    rw [memcpy_outside (by omega),memcpy_outside (by omega),hcopies]

theorem syncFs_spec (hfs : fs.Coherent) : ∃ fs',fs.syncFs v = (.ok,fs') ∧ Settled v fs fs' := by
  obtain ⟨fs₁,hsync,hkept,hclean,hat⟩ := syncWindow_spec (g := v.toGeometry) hfs
  have hsettled : Settled v fs fs₁ :=
    ⟨hkept.coherent,hclean,fun a ha hno _ => hkept.view a ha hno,hkept.mirrored,Or.inl hat,
      hkept.freeClst⟩
  simp only [FATFS.syncFs,hsync,if_true]
  by_cases hflag : fs₁.fsiFlag = 1
  · rw [if_pos hflag]
    by_cases htype : v.fsType = .fat32
    · rw [if_pos htype]
      exact ⟨_,rfl,hsettled.info htype _ _⟩
    · rw [if_neg htype]
      exact ⟨_,rfl,⟨hkept.coherent.inside,hkept.coherent.clean⟩,hclean,hsettled.view,
        fun hm => ⟨(hsettled.mirrored hm).pending,(hsettled.mirrored hm).copies⟩,Or.inl hat,
        hkept.freeClst⟩
  · rw [if_neg hflag]
    exact ⟨fs₁,rfl,hsettled⟩

end Sync

section File

variable {ι : Type} [DecidableEq ι] {v : MountedVolume} {d : DirPlace v.toGeometry}
  {chains : ι → List ℕ} {i : ι} {cs : List ℕ} {n : ℕ} {fp : Fil Mem} {fs : FATFS}
  {validate : Fil Mem → FATFS → FResult}

/-- The entry is in no FAT and not in the FSInfo sector. -/
theorem dir_behind (d : DirPlace v.toGeometry) {k : ℕ} (hk : k < 32) :
    (d.addr + k) / SS = d.sect ∧ d.addr + k < nSects * SS ∧ ¬v.InFats (d.addr + k) ∧
      ¬v.Info ((d.addr + k) / SS) := by
  have hfits := d.fits
  have hdiv : (d.addr + k) / SS = d.sect := by
    rw [DirPlace.addr,Nat.add_assoc,Nat.mul_comm,Nat.mul_add_div SS_pos,
      Nat.div_eq_of_lt (by omega),Nat.add_zero]
  have hlast : (d.sect + 1) * SS ≤ nSects * SS := Nat.mul_le_mul_right SS d.inside
  have hbehind : (v.fatbase + v.nFats * v.fsize) * SS ≤ d.sect * SS :=
    Nat.mul_le_mul_right SS d.behind
  rw [Nat.succ_mul] at hlast
  refine ⟨hdiv,?_,?_,?_⟩
  · rw [DirPlace.addr]
    omega
  · rintro ⟨_,hhi⟩
    rw [DirPlace.addr] at hhi
    omega
  · rintro ⟨htype,hat⟩
    have hfit := v.infoFits htype
    have hbehind' := d.behind
    omega

/-- The entry is behind the FAT. -/
theorem fat_before (d : DirPlace v.toGeometry) {a : ℕ} (ha : a < (v.fatbase + v.fsize) * SS) :
    a < d.addr := by
  have hcopies : v.fsize ≤ v.nFats * v.fsize := by
    have hfats := v.fatsOk
    exact Nat.le_mul_of_pos_left _ (by omega)
  have hbehind : (v.fatbase + v.fsize) * SS ≤ d.sect * SS := by
    have hbehind := d.behind
    exact Nat.mul_le_mul_right SS (by omega)
  rw [DirPlace.addr]
  omega

/-- A write to the window at the entry is none to the second FAT. -/
theorem Mirrored.putEntry (hm : Mirrored v.toGeometry fs) (hat : fs.winsect = d.sect) (win : Mem) :
    Mirrored v.toGeometry (fs.put win) := by
  refine ⟨fun _ hmirror => ?_,hm.copies⟩
  rw [FATFS.put_winsect,hat] at hmirror
  have hbehind : (v.fatbase + v.nFats * v.fsize) * SS ≤ d.sect * SS :=
    Nat.mul_le_mul_right SS d.behind
  have hin := hmirror.inFats.2
  omega

/-- The entry in the window. -/
theorem DirPlace.win_eq {g : Geometry} (d : DirPlace g) {fs : FATFS} (hat : fs.winsect = d.sect) {k : ℕ}
    (hk : k < 32) : fs.win (d.off + k) = fs.view (d.addr + k) := by
  have hfits := d.fits
  rw [fs.win_eq_view (by omega),hat,DirPlace.addr,Nat.add_assoc]

/-- What a sync of a changed file does. The file is as it was, and the volume too but for its
directory entry; nothing is pending, in the buffer or in the window. -/
structure Synced (v : MountedVolume) (d : DirPlace v.toGeometry) (chains : ι → List ℕ) (i : ι)
    (cs : List ℕ) (n : ℕ) (fp : Fil Mem) (fs : FATFS) (flag : ℕ) (fs' : FATFS) : Prop where
  opened : Opened v.toGeometry chains i cs n { fp with flag := flag } fs'
  written : ¬AnyFlag flag FA_DIRTY
  saved : ¬AnyFlag flag FA_MODIFIED
  access : access flag = access fp.flag
  content : ∀ o < cs.length * v.bcs,
    v.content cs { fp with flag := flag } fs' o = v.content cs fp fs o
  recorded : Recorded v.toGeometry d.addr fp fs'.view
  attr : (fs'.view (d.addr + 11)).toNat = (fs.view (d.addr + 11)).toNat ||| AM_ARC
  clean : fs'.wflag = false
  view : ∀ a < nSects * SS,¬v.InFats a → ¬v.Sectors cs (a / SS) →
    (a < d.addr ∨ d.addr + 32 ≤ a) → ¬v.Info (a / SS) → fs'.view a = fs.view a
  mirrored : Mirrored v.toGeometry fs → Mirrored v.toGeometry fs'
  window : fs'.winsect = d.sect ∨ v.Info fs'.winsect

theorem notModified (w : ℕ) : ¬AnyFlag (w &&& (0xFF ^^^ FA_MODIFIED)) FA_MODIFIED := by
  rw [AnyFlag,Nat.and_assoc]
  exact not_not.mpr (Nat.and_zero w)

theorem saved_dirty (w : ℕ) : AnyFlag (w &&& (0xFF ^^^ FA_MODIFIED)) FA_DIRTY ↔ AnyFlag w FA_DIRTY := by
  rw [AnyFlag,AnyFlag,Nat.and_assoc]
  exact Iff.rfl

theorem access_saved (w : ℕ) : access (w &&& (0xFF ^^^ FA_MODIFIED)) = access w := by
  rw [access,Nat.and_assoc]
  rfl

/-- The entry is written into the window and from there to the disk. -/
theorem record_synced {fs₂ : FATFS} (hkept : Kept v.toGeometry fs fs₂) (hat : fs₂.winsect = d.sect)
    (hsclust : fp.sclust < v.nFatent) (hobjsize : fp.objsize < 2 ^ 32) :
    ∃ fs',(fs₂.put (FATFS.record v.toGeometry d.off fp fs₂.win)).syncFs v = (.ok,fs') ∧
      fs'.Coherent ∧ fs'.wflag = false ∧ Recorded v.toGeometry d.addr fp fs'.view ∧
      (fs'.view (d.addr + 11)).toNat = (fs.view (d.addr + 11)).toNat ||| AM_ARC ∧
      (∀ a < nSects * SS,¬v.InMirror a → ¬v.Info (a / SS) → (a < d.addr ∨ d.addr + 32 ≤ a) →
        fs'.view a = fs.view a) ∧
      (Mirrored v.toGeometry fs → Mirrored v.toGeometry fs') ∧
      (fs'.winsect = d.sect ∨ v.Info fs'.winsect) ∧ fs'.freeClst = fs.freeClst := by
  have hrecord : ∀ i,i < d.off ∨ d.off + 32 ≤ i →
      FATFS.record v.toGeometry d.off fp fs₂.win i = fs₂.win i := fun i hi => record_outside hi
  have hview := fs₂.view_put d.fits hrecord
  rw [hat] at hview
  obtain ⟨fs',hsync,hs⟩ := syncFs_spec (v := v)
    (hkept.coherent.put (FATFS.record v.toGeometry d.off fp fs₂.win))
  have hentry : ∀ k < 32,fs'.view (d.addr + k) = FATFS.record v.toGeometry d.off fp fs₂.win (d.off + k) := by
    intro k hk
    obtain ⟨_,hdisk,hfats,hinfo⟩ := dir_behind d hk
    have hplace : d.addr + k - d.sect * SS = d.off + k := by
      rw [DirPlace.addr]
      omega
    rw [hs.view _ hdisk (fun hm => hfats hm.inFats) hinfo,hview,hplace,if_pos]
    rw [DirPlace.addr]
    omega
  refine ⟨fs',hsync,hs.coherent,hs.clean,?_,?_,fun a ha hno hinfo hout => ?_,fun hm => ?_,?_,?_⟩
  · exact (record_recorded d.off fs₂.win hsclust hobjsize).congr hentry
  · obtain ⟨_,hdisk,hfats,_⟩ := dir_behind d (k := 11) (by decide)
    rw [hentry 11 (by decide),record_attr,d.win_eq hat (by decide),
      hkept.view _ hdisk fun hm => hfats hm.inFats]
  · rw [hs.view a ha hno hinfo,hview,if_neg,hkept.view a ha hno]
    rw [DirPlace.addr] at hout
    omega
  · exact hs.mirrored ((hkept.mirrored hm).putEntry hat _)
  · have hwindow := hs.window
    rwa [FATFS.put_winsect,hat] at hwindow
  · exact hs.freeClst.trans hkept.freeClst

/-- The first cluster of an entry is a number that the entry can hold. -/
theorem Opened.sclust_lt (h : Opened v.toGeometry chains i cs n fp fs) : fp.sclust < v.nFatent := by
  have hentries := v.entriesOk.1
  rw [h.sclust]
  cases cs with
  | nil => exact lt_of_le_of_lt (Nat.zero_le 2) hentries
  | cons c l => exact (h.holds.valid (List.mem_cons_self (a := c) (l := l))).2

theorem Opened.objsize_lt (h : Opened v.toGeometry chains i cs n fp fs) : fp.objsize < 2 ^ 32 := by
  have hsmall := h.holds.small
  have hcovered := h.covered
  have hle : cs.length * v.bcs ≤ (cs.length + n) * v.bcs :=
    Nat.mul_le_mul_right _ (Nat.le_add_right _ _)
  omega

/-- A sector of the file is no other one. -/
theorem Holds.sector_away (h : Holds v.toGeometry chains i cs n fs) (hdir : ¬v.Sectors cs d.sect)
    {a : ℕ} (ha : v.Sectors cs (a / SS)) :
    a < nSects * SS ∧ ¬v.InFats a ∧ ¬v.Info (a / SS) ∧ (a < d.addr ∨ d.addr + 32 ≤ a) := by
  obtain ⟨hlo,hhi⟩ := h.sectors ha
  have hdata : v.database * SS ≤ a := (Nat.le_div_iff_mul_le SS_pos).mp hlo
  refine ⟨(Nat.div_lt_iff_lt_mul SS_pos).mp hhi,data_not_fats hdata,fun hinfo => ?_,?_⟩
  · have hbefore := (info_before hinfo).1
    have hle : v.fatbase * SS ≤ v.database * SS := by
      have hfats := v.fatsFit
      exact Nat.mul_le_mul_right SS (by omega)
    omega
  · by_contra hin
    obtain ⟨k,rfl⟩ := Nat.exists_eq_add_of_le (show d.addr ≤ a by omega)
    rw [(dir_behind d (k := k) (by omega)).1] at ha
    exact hdir ha

/-- `f_sync` of a file that was changed. -/
theorem Opened.fSync (h : Opened v.toGeometry chains i cs n fp fs) (hok : validate fp fs = .ok)
    (hmodified : AnyFlag fp.flag FA_MODIFIED) (hdir : ¬v.Sectors cs d.sect) :
    ∃ flag fs',FATFS.fSync v validate d fp fs = (.ok,{ fp with flag := flag },fs') ∧
      Synced v d chains i cs n fp fs flag fs' := by
  obtain ⟨flag,fs₁,hflush,hdry,hmode,hbuf,hshown,hbeside,_⟩ := h.toBuffered.flushBuf
  obtain ⟨fs₂,hmove,hkept,hat⟩ :=
    moveWindow_spec (g := v.toGeometry) hbuf.holds.alloc.coherent d.inside
  obtain ⟨fs',hsync,hcoherent,hclean,hrecorded,hattr,hview,hmirrored,hwindow,hfree⟩ :=
    record_synced hkept hat (show Fil.sclust { fp with flag := flag } < v.nFatent from h.sclust_lt)
      h.objsize_lt
  have hsync : FATFS.syncFs v { fs₂ with
      win := FATFS.record v.toGeometry d.off { fp with flag := flag } fs₂.win, wflag := true } =
        (.ok,fs') := hsync
  have hsame : ∀ a,v.Sectors cs (a / SS) → fs'.view a = fs₁.view a := by
    intro a ha
    obtain ⟨hdisk,hfats,hinfo,hout⟩ := h.holds.sector_away hdir ha
    exact hview a hdisk (fun hm => hfats hm.inFats) hinfo hout
  -- the FAT is what it was
  have hfat : ∀ a,v.fatbase * SS ≤ a → a < (v.fatbase + v.fsize) * SS → fs'.view a = fs₁.view a := by
    intro a hlo hhi
    obtain ⟨hdisk,hmirror⟩ := v.inFat hhi
    refine hview a hdisk hmirror (fun hinfo => ?_) (Or.inl (fat_before d hhi))
    have hbefore := (info_before hinfo).1
    omega
  obtain ⟨halloc,hleft⟩ := hbuf.holds.alloc.congr hcoherent hfat (Or.inl hfree)
  have hholds : Holds v.toGeometry chains i cs n fs' := by
    refine ⟨halloc,by rw [hleft,hbuf.holds.free],?_⟩
    rcases hwindow with hsect | ⟨htype,hinfo⟩
    · rwa [hsect]
    · rw [hinfo]
      intro hsect
      have hlo := (h.holds.sectors hsect).1
      have hfit := v.infoFits htype
      have hfats := v.fatsFit
      omega
  have hbuf' := hbuf.same hsame List.prefix_rfl hholds
  have hdirty := saved_dirty flag
  have hdry' : ¬AnyFlag (flag &&& (0xFF ^^^ FA_MODIFIED)) FA_DIRTY := fun hd => hdry (hdirty.mp hd)
  refine ⟨flag &&& (0xFF ^^^ FA_MODIFIED),fs',?_,⟨⟨⟨hholds,?_,fun _ => hbuf'.copy hdry⟩,h.err,h.sclust,
    h.within,h.covered,h.clust,h.loaded⟩,hdry',notModified flag,(access_saved flag).trans (access_congr hmode),
    fun o ho => ?_,⟨hrecorded.sclust,hrecorded.objsize⟩,?_,hclean,fun a ha hfats hno hout hinfo => ?_,
    fun hm => hmirrored (hbeside.mirrored hm),hwindow⟩⟩
  · simp only [FATFS.fSync,hok,if_true,if_pos hmodified,hflush,hmove,hsync]
  · exact hbuf'.sect.imp_left fun hnone => ⟨hnone.1,hdry'⟩
  · refine (congrFun (Fil.shown_clean hdry') _).trans ?_
    rw [hsame _ (sectors_place ho),hshown]
    rfl
  · obtain ⟨hsect,hdisk,hfats,_⟩ := dir_behind d (k := 11) (by decide)
    rw [hattr,hbeside.view _ hdisk hfats (by rwa [hsect])]
  · rw [hview a ha (fun hm => hfats hm.inFats) hinfo hout,hbeside.view a ha hfats hno]

end File

end UcVfs.Fatfs
