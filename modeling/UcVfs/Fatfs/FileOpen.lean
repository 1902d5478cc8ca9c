import UcVfs.Fatfs.FileSync
import UcVfs.Fatfs.RootTable

/-!
# Opening a file

`f_open` of `ff.c` from where the directory entry has been found: a file is emptied when it is to be
overwritten, the file object is set up from the entry, and the pointer goes to the end of the file for
an append.
-/

namespace UcVfs.Fatfs

open Framework

namespace FATFS

variable (g : Geometry)

/-- The access mode of the file object. A file that was created or overwritten has changed. -/
def openMode (mode : ℕ) : ℕ :=
  let mode := mode &&& (FA_READ ||| FA_WRITE ||| FA_CREATE_ALWAYS ||| FA_CREATE_NEW |||
    FA_OPEN_ALWAYS ||| FA_OPEN_APPEND)
  if mode &&& FA_CREATE_ALWAYS ≠ 0 then mode ||| FA_MODIFIED else mode

/-- Follows the chain to the end of the file. -/
def lastCluster : ℕ → ℕ → ℕ → FATFS → (FResult × ℕ × ℕ) × FATFS
  | 0,ofs,clst,fs => ((.ok,ofs,clst),fs)
  | fuel + 1,ofs,clst,fs =>
    if ofs > g.bcs then
      let (clst,fs) := fs.getFat g clst
      if clst = 0xFFFFFFFF then ((.diskErr,ofs - g.bcs,clst),fs)
      else if clst ≤ 1 then ((.intErr,ofs - g.bcs,clst),fs)
      else lastCluster fuel (ofs - g.bcs) clst fs
    else ((.ok,ofs,clst),fs)

/-- Goes to the end of the file. -/
def seekEnd (fp : Fil Mem) (fs : FATFS) : FResult × Fil Mem × FATFS :=
  let fp := { fp with fptr := fp.objsize }
  let ((res,ofs,clst),fs) := lastCluster g (fp.objsize / g.bcs) fp.objsize fp.sclust fs
  let fp := { fp with clust := clst }
  if res = .ok ∧ ofs % SS ≠ 0 then
    let sc := g.clst2sect clst
    if sc = 0 then (.intErr,fp,fs)
    else
      let fp := { fp with sect := sc + ofs / SS }
      match fs.read fp.buf fp.sect 1 with
      | (.error,buf) => (.diskErr,{ fp with buf := buf },fs)
      | (.ok,buf) => (.ok,{ fp with buf := buf },fs)
  else (res,fp,fs)

/-- The object of the file whose entry is in the window at `dir`. -/
def openEntry (mode dir : ℕ) (fp : Fil Mem) (fs : FATFS) : FResult × Fil Mem × FATFS :=
  let fp := { fp with
    sclust := g.ldClust fs.win dir
    objsize := loadLE fs.win (dir + 28) 4
    flag := openMode mode
    err := .ok
    sect := 0
    fptr := 0
    buf := memset fp.buf 0 0 SS }
  if openMode mode &&& FA_SEEKEND ≠ 0 ∧ fp.objsize > 0 then seekEnd g fp fs else (.ok,fp,fs)

/-- Empties the file whose entry is in the window at `dir`. -/
def overwrite (dir : ℕ) (fs : FATFS) : Option (FResult × FATFS) :=
  let win := storeLE fs.win (dir + 14) FATTIME 4
  let win := storeLE win (dir + 22) FATTIME 4
  let cl := g.ldClust win dir
  let win := storeLE win (dir + 11) AM_ARC 1
  let win := g.stClust win dir 0
  let win := storeLE win (dir + 28) 0 4
  let fs := { fs with win := win, wflag := true }
  -- the chain is removed if there is one
  if cl ≠ 0 then
    let sc := fs.winsect
    match fs.removeChain g cl 0 with
    | none => none
    | some (.ok,fs) =>
      let (res,fs) := fs.moveWindow g sc
      -- the hole is used again
      some (res,{ fs with lastClst := cl - 1 })
    | some (res,fs) => some (res,fs)
  else some (.ok,fs)

/-- What becomes of an existing file whose entry is in the window. -/
def openExisting (mode dir : ℕ) (fs : FATFS) : Option (FResult × FATFS) :=
  let attr := (fs.win (dir + 11)).toNat &&& AM_MASK
  if mode &&& (FA_CREATE_ALWAYS ||| FA_OPEN_ALWAYS ||| FA_CREATE_NEW) ≠ 0 then
    let res :=
      if attr &&& (AM_RDO ||| AM_DIR) ≠ 0 then .denied
      else if mode &&& FA_CREATE_NEW ≠ 0 then .exist
      else .ok
    if res = .ok ∧ mode &&& FA_CREATE_ALWAYS ≠ 0 then overwrite g dir fs else some (res,fs)
  else if attr &&& AM_DIR ≠ 0 then some (.noFile,fs)
  else if mode &&& FA_WRITE ≠ 0 ∧ attr &&& AM_RDO ≠ 0 then some (.denied,fs)
  else some (.ok,fs)

/-- `f_open` of a file that is there. The search through the directory ends with its entry in the
window. -/
def fOpen {g : Geometry} (d : DirPlace g) (mode : ℕ) (fp : Fil Mem) (fs : FATFS) :
    Option (FResult × Fil Mem × FATFS) :=
  let mode := mode &&& (FA_READ ||| FA_WRITE ||| FA_CREATE_ALWAYS ||| FA_CREATE_NEW |||
    FA_OPEN_ALWAYS ||| FA_OPEN_APPEND)
  let (res,fs) := fs.moveWindow g d.sect
  if res = .ok then
    match openExisting g mode d.off fs with
    | none => none
    | some (.ok,fs) => some (openEntry g mode d.off fp fs)
    | some (res,fs) => some (res,fp,fs)
  else some (res,fp,fs)

end FATFS

section Open

variable {ι : Type} [DecidableEq ι] {g : Geometry} {chains : ι → List ℕ} {i : ι} {cs : List ℕ}
  {n : ℕ} {fp : Fil Mem} {fs : FATFS}

theorem openMode_dirty (mode : ℕ) : ¬AnyFlag (FATFS.openMode mode) FA_DIRTY := by
  rw [FATFS.openMode]
  have hmask : ∀ w : ℕ,¬AnyFlag (w &&& (FA_READ ||| FA_WRITE ||| FA_CREATE_ALWAYS |||
      FA_CREATE_NEW ||| FA_OPEN_ALWAYS ||| FA_OPEN_APPEND)) FA_DIRTY := by
    intro w
    rw [AnyFlag,Nat.and_assoc]
    exact not_not.mpr (Nat.and_zero w)
  split_ifs
  · exact fun hd => hmask mode ((modified_dirty _).mp hd)
  · exact hmask mode

/-- The loop comes to the cluster of the last byte. -/
theorem lastCluster_spec {fuel ofs k clst : ℕ} (h : Holds g chains i cs n fs) (hclst : cs[k]? = some clst)
    (hpos : 0 < ofs) (hfuel : ofs ≤ (fuel + 1) * g.bcs) (hle : k * g.bcs + ofs ≤ cs.length * g.bcs) :
    ∃ ofs' clst' fs',FATFS.lastCluster g fuel ofs clst fs = ((.ok,ofs',clst'),fs') ∧
      Looked g fs fs' ∧ cs[(k * g.bcs + ofs - 1) / g.bcs]? = some clst' ∧ ofs' ≤ g.bcs ∧
      ∃ k',k * g.bcs + ofs = k' * g.bcs + ofs' := by
  have hbcs := gbcs_pos g
  have hhere : ∀ {ofs k : ℕ},0 < ofs → ofs ≤ g.bcs → (k * g.bcs + ofs - 1) / g.bcs = k := by
    intro ofs k hpos hle
    rw [Nat.div_eq_iff hbcs]
    omega
  induction fuel generalizing ofs k clst fs with
  | zero =>
    have hlast : ofs ≤ g.bcs := by omega
    refine ⟨ofs,clst,fs,rfl,.refl h.alloc.coherent,?_,hlast,k,rfl⟩
    rwa [hhere hpos hlast]
  | succ fuel ih =>
    rw [FATFS.lastCluster]
    by_cases hmore : ofs > g.bcs
    · rw [if_pos hmore]
      have hnext : k + 1 < cs.length := by
        refine lt_of_mul_lt_mul_right (a := g.bcs) ?_ (Nat.zero_le _)
        rw [Nat.succ_mul]
        omega
      have hd : cs[k + 1]? = some cs[k + 1] := List.getElem?_eq_getElem hnext
      obtain ⟨fs₁,hget,hlooked⟩ := h.getFat hclst hd
      have hvalid := h.valid (List.mem_of_getElem? hd)
      obtain ⟨_,_,hsmall⟩ := entries_bound g
      rw [hget]
      dsimp only
      rw [if_neg (by omega),if_neg (by omega)]
      have hstep : (k + 1) * g.bcs + (ofs - g.bcs) = k * g.bcs + ofs := by
        rw [Nat.succ_mul]
        omega
      rw [Nat.succ_mul] at hfuel
      have hleft : ofs - g.bcs ≤ (fuel + 1) * g.bcs := by omega
      obtain ⟨ofs',clst',fs',hloop,hlooked',hat,hin,k',hsplit⟩ :=
        ih (h.looked hlooked) hd (by omega) hleft (by rwa [hstep])
      rw [hstep] at hat hsplit
      exact ⟨ofs',clst',fs',hloop,hlooked.trans hlooked',hat,hin,k',hsplit⟩
    · rw [if_neg hmore]
      have hlast : ofs ≤ g.bcs := not_lt.mp hmore
      refine ⟨ofs,clst,fs,rfl,.refl h.alloc.coherent,?_,hlast,k,rfl⟩
      rwa [hhere hpos hlast]

/-- A buffer that holds no sector. -/
theorem Holds.blank (h : Holds g chains i cs n fs) (hsect : fp.sect = 0)
    (hclean : ¬AnyFlag fp.flag FA_DIRTY) : Buffered g chains i cs n fp fs := by
  refine ⟨h,Or.inl ⟨hsect,hclean⟩,fun _ hno => ?_⟩
  obtain ⟨c,hc,k,_,hzero⟩ := hno
  obtain ⟨hlo,_,hpos⟩ := cluster_sectors (h.valid hc).1 (h.valid hc).2
  omega

/-- The pointer goes to the end of the file, with the last sector in the buffer. -/
theorem Holds.seekEnd (h : Holds g chains i cs n fs) (hsclust : fp.sclust = cs.head?.getD 0)
    (hpos : 0 < fp.objsize) (hcovered : fp.objsize ≤ cs.length * g.bcs) (herr : fp.err = .ok)
    (hsect : fp.sect = 0) (hclean : ¬AnyFlag fp.flag FA_DIRTY) :
    ∃ clust sect buf fs',FATFS.seekEnd g fp fs =
        (.ok,{ fp with fptr := fp.objsize, clust := clust, sect := sect, buf := buf },fs') ∧
      Opened g chains i cs n
        { fp with fptr := fp.objsize, clust := clust, sect := sect, buf := buf } fs' ∧
      Looked g fs fs' := by
  have hbcs := gbcs_pos g
  have hfirst : cs[0]? = some fp.sclust := by
    rw [hsclust]
    cases cs with
    | nil => simp at hcovered; omega
    | cons c l => rfl
  have hfuel : fp.objsize ≤ (fp.objsize / g.bcs + 1) * g.bcs := by
    rw [Nat.succ_mul]
    exact (Nat.lt_div_mul_add hbcs).le
  obtain ⟨ofs,clst,fs₁,hloop,hlooked,hat,hin,k,hsplit⟩ :=
    lastCluster_spec h hfirst hpos hfuel (by omega)
  rw [Nat.zero_mul,Nat.zero_add] at hat hsplit
  have hholds := h.looked hlooked
  have hmod : fp.objsize % SS = ofs % SS := by
    rw [hsplit,Geometry.bcs,← Nat.mul_assoc,Nat.mul_add_mod']
  simp only [FATFS.seekEnd,hloop]
  by_cases hmid : ofs % SS ≠ 0
  · have hvalid := h.valid (List.mem_of_getElem? hat)
    obtain ⟨hlo,_,hdata⟩ := cluster_sectors hvalid.1 hvalid.2
    have hlt : ofs < g.bcs := by
      refine lt_of_le_of_ne hin fun he => hmid ?_
      rw [he,Geometry.bcs,Nat.mul_mod_left]
    have hrest : fp.objsize % g.bcs = ofs := by
      rw [hsplit,Nat.mul_add_mod',Nat.mod_eq_of_lt hlt]
    have hinside : fp.objsize % g.bcs ≠ 0 := by
      rw [hrest]
      intro hz
      exact hmid (by rw [hz,Nat.zero_mod])
    have hplace := hat
    rw [before_div hpos hinside] at hplace
    have hsect' : g.place cs fp.objsize / SS = g.clst2sect clst + ofs / SS := by
      rw [place_div hplace,hrest]
    have hsects : g.Sectors cs (g.clst2sect clst + ofs / SS) :=
      ⟨clst,List.mem_of_getElem? hat,_,hrest ▸ csect_lt g fp.objsize,rfl⟩
    obtain ⟨data,hread,hbytes⟩ := hholds.read Nat.one_pos (one_sector hsects) fp.buf
    rw [Nat.one_mul] at hbytes
    rw [if_pos ⟨trivial,hmid⟩,if_neg (by omega),hread]
    exact ⟨clst,_,data,fs₁,rfl,⟨⟨hholds,Or.inr hsects,fun _ _ => hbytes⟩,herr,hsclust,le_rfl,
      hcovered,fun _ => hat,fun _ => hsect'.symm⟩,hlooked⟩
  · rw [if_neg fun h => hmid h.2]
    refine ⟨clst,fp.sect,fp.buf,fs₁,rfl,⟨hholds.blank hsect hclean,herr,hsclust,le_rfl,hcovered,
      fun _ => hat,fun hne => absurd (hmod ▸ hne) hmid⟩,hlooked⟩

/-- `f_open` of a file whose entry is in the window: the object shows what is on the disk. -/
theorem Holds.openEntry (h : Holds g chains i cs n fs) {dir : ℕ}
    (hsclust : g.ldClust fs.win dir = cs.head?.getD 0)
    (hobjsize : loadLE fs.win (dir + 28) 4 ≤ cs.length * g.bcs) (mode : ℕ) (fp : Fil Mem) :
    ∃ fp' fs',FATFS.openEntry g mode dir fp fs = (.ok,fp',fs') ∧ Opened g chains i cs n fp' fs' ∧
      fp'.objsize = loadLE fs.win (dir + 28) 4 ∧ fp'.flag = FATFS.openMode mode ∧
      (fp'.fptr = if AnyFlag (FATFS.openMode mode) FA_SEEKEND then fp'.objsize else 0) ∧
      (∀ o < cs.length * g.bcs,g.content cs fp' fs' o = fs.view (g.place cs o)) ∧ Looked g fs fs' := by
  have hclean := openMode_dirty mode
  have hshown : ∀ {fp' : Fil Mem} {fs' : FATFS},fp'.flag = FATFS.openMode mode → Looked g fs fs' →
      ∀ o < cs.length * g.bcs,g.content cs fp' fs' o = fs.view (g.place cs o) := by
    intro fp' fs' hflag hlooked o ho
    rw [Geometry.content,Fil.shown_clean (by rwa [hflag])]
    exact hlooked.untouched.same h _ (sectors_place ho)
  rw [FATFS.openEntry,hsclust]
  generalize loadLE fs.win (dir + 28) 4 = objsize at hobjsize ⊢
  dsimp only
  by_cases hend : FATFS.openMode mode &&& FA_SEEKEND ≠ 0
  · by_cases hpos : objsize > 0
    · obtain ⟨clust,sect,buf,fs',hseek,hopened,hlooked⟩ := h.seekEnd (show Fil.sclust { fp with
          sclust := cs.head?.getD 0, objsize := objsize, flag := FATFS.openMode mode, err := .ok,
          sect := 0, fptr := 0, buf := memset fp.buf 0 0 SS } = cs.head?.getD 0 from rfl) hpos hobjsize
        rfl rfl hclean
      rw [if_pos ⟨hend,hpos⟩,hseek]
      exact ⟨_,fs',rfl,hopened,rfl,rfl,(if_pos hend).symm,hshown rfl hlooked,hlooked⟩
    · have hempty : objsize = 0 := by omega
      have hlooked := Looked.refl (g := g) h.alloc.coherent
      rw [if_neg fun hd => hpos hd.2]
      refine ⟨_,fs,rfl,⟨h.blank rfl hclean,rfl,rfl,Nat.zero_le _,hobjsize,
        fun hlt => absurd hlt (lt_irrefl 0),fun hmod => absurd (Nat.zero_mod SS) hmod⟩,rfl,rfl,?_,
        hshown rfl hlooked,hlooked⟩
      exact ((if_pos hend).trans hempty).symm
  · have hlooked := Looked.refl (g := g) h.alloc.coherent
    rw [if_neg fun hd => hend hd.1]
    exact ⟨_,fs,rfl,⟨h.blank rfl hclean,rfl,rfl,Nat.zero_le _,hobjsize,
      fun hlt => absurd hlt (lt_irrefl 0),fun hmod => absurd (Nat.zero_mod SS) hmod⟩,rfl,rfl,
      (if_neg hend).symm,hshown rfl hlooked,hlooked⟩

end Open

section Reopen

variable {ι : Type} [DecidableEq ι] {v : MountedVolume} {d : DirPlace v.toGeometry}
  {chains : ι → List ℕ} {i : ι} {cs : List ℕ} {n flag : ℕ} {fp : Fil Mem} {fs fs' fs₂ : FATFS}

/-- A later mount of the same disk: whatever was in memory is gone. The count of free clusters is
not known, or FSInfo had it right. -/
structure Remounted (g : Geometry) (disk : Mem) (fs : FATFS) : Prop where
  disk : fs.disk = disk
  coherent : fs.Coherent
  clean : fs.wflag = false
  counted : fs.freeClst ≤ g.nFatent - 2 → fs.freeClst = (g.free fs.view).card

omit [DecidableEq ι] in
/-- A file that is neither read-only nor a directory is opened as it is, unless it shall be
overwritten or created. -/
theorem openExisting_kept (g : Geometry) {mode dir : ℕ} {fs : FATFS}
    (hkeeps : mode &&& (FA_CREATE_ALWAYS ||| FA_CREATE_NEW) = 0)
    (hplain : (fs.win (dir + 11)).toNat &&& (AM_RDO ||| AM_DIR) = 0) :
    FATFS.openExisting g mode dir fs = some (.ok,fs) := by
  have hbits : ∀ {x a b : ℕ},x &&& a = 0 → a &&& b = b → x &&& b = 0 := by
    intro x a b hx hb
    rw [← hb,← Nat.and_assoc,hx,Nat.zero_and]
  have hnew : mode &&& FA_CREATE_NEW = 0 := hbits hkeeps rfl
  have halways : mode &&& FA_CREATE_ALWAYS = 0 := hbits hkeeps rfl
  have hmasked : (fs.win (dir + 11)).toNat &&& AM_MASK &&& (AM_RDO ||| AM_DIR) = 0 := by
    rw [Nat.and_assoc]
    exact hplain
  have hdir : (fs.win (dir + 11)).toNat &&& AM_MASK &&& AM_DIR = 0 := hbits hmasked rfl
  have hrdo : (fs.win (dir + 11)).toNat &&& AM_MASK &&& AM_RDO = 0 := hbits hmasked rfl
  simp [FATFS.openExisting,hnew,halways,hmasked,hdir,hrdo]

/-- The file that was synchronized is on the disk: `f_open` finds it again. -/
theorem Synced.reopened (h : Synced v d chains i cs n fp fs flag fs')
    (hmount : Remounted v.toGeometry fs'.disk fs₂) (hdir : ¬v.Sectors cs d.sect)
    (hplain : (fs.view (d.addr + 11)).toNat &&& (AM_RDO ||| AM_DIR) = 0) (mode : ℕ)
    (hkeeps : mode &&& (FA_CREATE_ALWAYS ||| FA_CREATE_NEW) = 0) (blank : Fil Mem) :
    ∃ fp₂ fs₃,FATFS.fOpen d mode blank fs₂ = some (.ok,fp₂,fs₃) ∧
      Opened v.toGeometry chains i cs n fp₂ fs₃ ∧ fp₂.objsize = fp.objsize ∧
      ∀ o < fp.objsize,v.content cs fp₂ fs₃ o = v.content cs fp fs o := by
  have hcovered : fp.objsize ≤ cs.length * v.bcs := h.opened.covered
  -- nothing was pending
  have hview : fs₂.view = fs'.view := by
    rw [hmount.coherent.view_clean hmount.clean,hmount.disk,
      h.opened.holds.alloc.coherent.view_clean h.clean]
  obtain ⟨fs₁,hmove,hkept,hat⟩ := moveWindow_spec (g := v.toGeometry) hmount.coherent d.inside
  have hshown : ∀ a < nSects * SS,¬v.InFats a → fs₁.view a = fs'.view a := by
    intro a ha hfats
    rw [hkept.view a ha fun hm => hfats hm.inFats,hview]
  obtain ⟨halloc₂,hfree₂⟩ := h.opened.holds.alloc.congr hmount.coherent
    (fun a _ _ => congrFun hview a) (Or.inr hmount.counted)
  obtain ⟨halloc,hfree⟩ := halloc₂.congr hkept.coherent
    (fun a _ ha => hkept.view a (v.inFat ha).1 (v.inFat ha).2) (Or.inl hkept.freeClst)
  have hholds : Holds v.toGeometry chains i cs n fs₁ :=
    ⟨halloc,by rw [hfree,hfree₂,h.opened.holds.free],by rwa [hat]⟩
  have hentry : ∀ k < 32,fs₁.win (d.off + k) = fs'.view (d.addr + k) := by
    intro k hk
    obtain ⟨_,hdisk,hfats,_⟩ := dir_behind d hk
    rw [d.win_eq hat hk,hshown _ hdisk hfats]
  have hrecorded : Recorded v.toGeometry d.off fp fs₁.win := h.recorded.congr hentry
  -- `f_sync` has set the archive attribute and no other
  have hattr : (fs₁.win (d.off + 11)).toNat &&& (AM_RDO ||| AM_DIR) = 0 := by
    rw [hentry 11 (by decide),h.attr,Nat.and_or_distrib_right,hplain]
    rfl
  obtain ⟨fp₂,fs₃,hopen,hopened,hobjsize,_,_,hcontent,_⟩ := hholds.openEntry
    (hrecorded.sclust.trans h.opened.sclust) (hrecorded.objsize.trans_le hcovered) (mode &&& (FA_READ |||
      FA_WRITE ||| FA_CREATE_ALWAYS ||| FA_CREATE_NEW ||| FA_OPEN_ALWAYS ||| FA_OPEN_APPEND)) blank
  refine ⟨fp₂,fs₃,?_,hopened,hobjsize.trans hrecorded.objsize,fun o ho => ?_⟩
  · have hkept' : mode &&& (FA_READ ||| FA_WRITE ||| FA_CREATE_ALWAYS ||| FA_CREATE_NEW |||
        FA_OPEN_ALWAYS ||| FA_OPEN_APPEND) &&& (FA_CREATE_ALWAYS ||| FA_CREATE_NEW) = 0 := by
      rw [Nat.and_assoc]
      exact hkeeps
    simp only [FATFS.fOpen,hmove,if_true,openExisting_kept v.toGeometry hkept' hattr,hopen]
  · have hin : o < cs.length * v.bcs := ho.trans_le hcovered
    obtain ⟨hdisk,hfats,_⟩ := h.opened.holds.sector_away hdir (sectors_place hin)
    rw [hcontent o hin,hshown _ hdisk hfats,← h.content o hin]
    exact (congrFun (Fil.shown_clean h.written) _).symm

/-- The small volume, and where its file is entered. -/
def tinyVolume : MountedVolume := { tiny with volbase := 0, infoFits := fun h => by cases h }

def tinyDir : DirPlace tinyVolume.toGeometry := ⟨2,0,by decide,by decide,by decide⟩

/-- The disk after a mount, with the entry in the window. -/
def tinyMount (disk : Mem) : FATFS :=
  ⟨false,0x80,0xFFFFFFFF,0xFFFFFFFF,tinyDir.sect,fun i => disk (tinyDir.sect * SS + i),disk⟩

theorem tiny_remounted (disk : Mem) : Remounted tinyVolume.toGeometry disk (tinyMount disk) :=
  ⟨rfl,⟨show 2 < nSects by decide,fun _ _ _ => rfl⟩,rfl,
    fun hknown => absurd hknown (show ¬0xFFFFFFFF ≤ 2 by decide)⟩

theorem tiny_home : ¬tinyVolume.Sectors [2] tinyDir.sect := by
  rintro ⟨c,hc,k,_,he⟩
  rw [List.mem_singleton.mp hc] at he
  have hsect : tinyVolume.clst2sect 2 = 3 := by decide
  have hdir : tinyDir.sect = 2 := rfl
  omega

theorem tiny_modified : Opened tinyVolume.toGeometry tinyChains (.inl ()) [2] 1
    { tinyFil with flag := tinyFil.flag ||| FA_MODIFIED } tinyFs :=
  ⟨⟨tiny_opened.holds,Or.inl ⟨rfl,by decide⟩,fun _ => tiny_opened.copy (by decide)⟩,rfl,rfl,
    tiny_opened.within,tiny_opened.covered,tiny_opened.clust,tiny_opened.loaded⟩

theorem Synced.reopened_tiny : ∃ flag fs' fp₂ fs₃,
    FATFS.fSync tinyVolume staysMounted tinyDir { tinyFil with flag := tinyFil.flag ||| FA_MODIFIED }
      tinyFs = (.ok,{ tinyFil with flag := flag },fs') ∧
    FATFS.fOpen tinyDir (FA_READ ||| FA_WRITE ||| FA_OPEN_APPEND) tinyFil (tinyMount fs'.disk) =
      some (.ok,fp₂,fs₃) ∧ fp₂.objsize = 3 := by
  obtain ⟨flag,fs',hcall,hs⟩ := tiny_modified.fSync (show staysMounted _ _ = .ok from rfl) (by decide)
    tiny_home
  obtain ⟨fp₂,fs₃,hopen,_,hsize,_⟩ := Synced.reopened hs (tiny_remounted fs'.disk) tiny_home
    (by decide) (FA_READ ||| FA_WRITE ||| FA_OPEN_APPEND) (by decide) tinyFil
  exact ⟨flag,fs',fp₂,fs₃,hcall,hopen,hsize⟩

end Reopen

end UcVfs.Fatfs
