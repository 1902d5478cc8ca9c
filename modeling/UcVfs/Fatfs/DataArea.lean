import UcVfs.Fatfs.ClusterChains
import UcVfs.Fatfs.ClusterSeek

/-!
# The data area

The sectors of the clusters, and `f_lseek` over the FAT, the window and the RAM disk. The window is
never at a sector of an open file, so that its data can be read and written beside it.
-/

namespace UcVfs.Fatfs

open Framework

namespace Geometry

variable (g : Geometry)

def csize : ℕ := 2 ^ g.csizeLog

/-- `clst2sect`; the number behind the first two clusters is unsigned. -/
def clst2sect (clst : ℕ) : ℕ :=
  let clst := (clst + 2 ^ 32 - 2) % 2 ^ 32
  if clst ≥ g.nFatent - 2 then 0 else g.database + g.csize * clst

/-- The sectors of some clusters. -/
def Sectors (cs : List ℕ) (sect : ℕ) : Prop := ∃ c ∈ cs,∃ k < g.csize,sect = g.clst2sect c + k

end Geometry

theorem SS_pos : 0 < SS := by decide

section Sectors

variable {g : Geometry} {c c' k k' : ℕ}

theorem csize_pos (g : Geometry) : 0 < g.csize := Nat.two_pow_pos _

theorem clst2sect_eq (hlo : 2 ≤ c) (hhi : c < g.nFatent) :
    g.clst2sect c = g.database + g.csize * (c - 2) := by
  obtain ⟨_,_,hsmall⟩ := entries_bound g
  have hplace : (c + 2 ^ 32 - 2) % 2 ^ 32 = c - 2 := by omega
  rw [Geometry.clst2sect,hplace]
  exact if_neg (by omega)

/-- The clusters are behind the copies of the FAT, on the disk. -/
theorem cluster_sectors (hlo : 2 ≤ c) (hhi : c < g.nFatent) :
    g.database ≤ g.clst2sect c ∧ g.clst2sect c + g.csize ≤ nSects ∧ 0 < g.database := by
  have hsize := g.fsizeOk
  have hfats := g.fatsOk
  have hfit := g.fatsFit
  have hdata := g.dataFits
  have hle : (c - 2 + 1) * g.csize ≤ (g.nFatent - 2) * g.csize := Nat.mul_le_mul_right _ (by omega)
  rw [Nat.succ_mul,Nat.mul_comm (c - 2)] at hle
  have hfsize : 0 < g.fsize := by
    by_contra hzero
    have hnone : g.fsize = 0 := by omega
    have hpos : 0 < g.fsType.szbfat g.nFatent := by
      have hentries := g.entriesOk.1
      cases g.fsType <;> simp only [FsType.szbfat] <;> omega
    rw [hnone,Nat.zero_mul] at hsize
    omega
  have hcopies : 0 < g.nFats * g.fsize := Nat.mul_pos (by omega) hfsize
  rw [clst2sect_eq hlo hhi]
  have hcsize : g.csize = 2 ^ g.csizeLog := rfl
  rw [← hcsize] at hdata
  omega

/-- No sector belongs to two clusters. -/
theorem cluster_of_sector (hlo : 2 ≤ c) (hhi : c < g.nFatent) (hlo' : 2 ≤ c') (hhi' : c' < g.nFatent)
    (hk : k < g.csize) (hk' : k' < g.csize) (he : g.clst2sect c + k = g.clst2sect c' + k') :
    c = c' ∧ k = k' := by
  rw [clst2sect_eq hlo hhi,clst2sect_eq hlo' hhi'] at he
  have hsame : g.csize * (c - 2) + k = g.csize * (c' - 2) + k' := by omega
  have hdiv := congrArg (· / g.csize) hsame
  have hmod := congrArg (· % g.csize) hsame
  simp only [Nat.mul_add_div (csize_pos g),Nat.div_eq_of_lt hk,Nat.div_eq_of_lt hk',Nat.mul_add_mod,
    Nat.mod_eq_of_lt hk,Nat.mod_eq_of_lt hk'] at hdiv hmod
  omega

/-- The data area is no part of the FAT. -/
theorem data_not_fats {a : ℕ} (ha : g.database * SS ≤ a) : ¬g.InFats a := by
  have hfit : (g.fatbase + g.nFats * g.fsize) * SS ≤ g.database * SS :=
    Nat.mul_le_mul_right SS g.fatsFit
  rintro ⟨_,hhi⟩
  omega

theorem data_not_fat {sect : ℕ} (hsect : g.database ≤ sect) : ¬g.InFat sect := by
  have hfit := g.fatsFit
  have hfats := g.fatsOk
  have hle : g.fsize ≤ g.nFats * g.fsize := Nat.le_mul_of_pos_left _ (by omega)
  rintro ⟨_,hhi⟩
  omega

end Sectors

/-! ### Reading and writing beside the window -/

section Beside

variable {g : Geometry} {fs : FATFS} {sect count : ℕ}

/-- A sector that the window does not hold is on the disk as it is shown. -/
theorem view_away {a : ℕ} (haway : a / SS ≠ fs.winsect) : fs.view a = fs.disk a := by
  rw [FATFS.view,if_neg]
  rintro ⟨hlo,hhi⟩
  apply haway
  have hpos : 0 < SS := by decide
  exact (Nat.div_eq_iff hpos).mpr (by omega)

/-- Sectors of the data area are written, with the window elsewhere. -/
theorem writeData (hfs : fs.Coherent) (hcount : 0 < count) (hlo : g.database ≤ sect)
    (hfit : sect + count ≤ nSects) (haway : fs.winsect < sect ∨ sect + count ≤ fs.winsect)
    (buff : Mem) :
    ∃ fs',fs.write buff sect count = (.ok,fs') ∧
      Shows g (memcpy fs.view (sect * SS) buff 0 (count * SS)) fs fs' ∧
      fs'.view = memcpy fs.view (sect * SS) buff 0 (count * SS) ∧ fs'.winsect = fs.winsect ∧
      fs'.wflag = fs.wflag := by
  have hout : ∀ i < SS,fs.winsect * SS + i < sect * SS ∨
      sect * SS + count * SS ≤ fs.winsect * SS + i := by
    intro i hi
    rcases haway with hbefore | hbehind
    · have hle : (fs.winsect + 1) * SS ≤ sect * SS := Nat.mul_le_mul_right SS hbefore
      rw [Nat.succ_mul] at hle
      omega
    · have hle : (sect + count) * SS ≤ fs.winsect * SS := Nat.mul_le_mul_right SS hbehind
      rw [Nat.add_mul] at hle
      omega
  have hview : FATFS.view { fs with disk := memcpy fs.disk (sect * SS) buff 0 (count * SS) } =
      memcpy fs.view (sect * SS) buff 0 (count * SS) := by
    funext a
    rw [FATFS.view]
    by_cases hin : fs.winsect * SS ≤ a ∧ a < fs.winsect * SS + SS
    · obtain ⟨i,rfl⟩ := Nat.exists_eq_add_of_le hin.1
      have hi : i < SS := by omega
      rw [if_pos hin,memcpy_outside (hout i hi),FATFS.view,if_pos hin]
    · rw [if_neg hin]
      show memcpy fs.disk (sect * SS) buff 0 (count * SS) a = _
      by_cases hat : sect * SS ≤ a ∧ a < sect * SS + count * SS
      · obtain ⟨i,rfl⟩ := Nat.exists_eq_add_of_le hat.1
        rw [memcpy_inside (by omega),memcpy_inside (by omega)]
      · rw [memcpy_outside (by omega),memcpy_outside (by omega),FATFS.view,if_neg hin]
  refine ⟨_,FATFS.write_sectors hcount hfit fs buff,⟨⟨hfs.inside,fun hclean i hi => ?_⟩,
    fun a _ _ => by rw [hview],fun hm => ⟨hm.pending,?_⟩,rfl,rfl⟩,
    hview,rfl,rfl⟩
  · show fs.win i = memcpy fs.disk (sect * SS) buff 0 (count * SS) (fs.winsect * SS + i)
    rw [memcpy_outside (hout i hi)]
    exact hfs.clean hclean i hi
  · intro hfats d hd
    have hfit := g.fatsFit
    have hdata : g.database * SS ≤ sect * SS := Nat.mul_le_mul_right SS hlo
    have hcopies : (g.fatbase + 2 * g.fsize) * SS ≤ g.database * SS := by
      rw [hfats] at hfit
      exact Nat.mul_le_mul_right SS hfit
    have hsame := hm.copies hfats d hd
    simp only [Nat.add_mul,Nat.two_mul] at hcopies hsame ⊢
    show memcpy fs.disk (sect * SS) buff 0 (count * SS) _ =
      memcpy fs.disk (sect * SS) buff 0 (count * SS) _
    rw [memcpy_outside (by omega),memcpy_outside (by omega),hsame]

/-- The chains are what the first FAT says. -/
theorem Allocated.congr {ι : Type} {chains : ι → List ℕ} {fs' : FATFS} (h : Allocated g chains fs)
    (hcoherent : fs'.Coherent)
    (hview : ∀ a,g.fatbase * SS ≤ a → a < (g.fatbase + g.fsize) * SS → fs'.view a = fs.view a)
    (hcount : fs'.freeClst = fs.freeClst ∨
      (fs'.freeClst ≤ g.nFatent - 2 → fs'.freeClst = (g.free fs'.view).card)) :
    Allocated g chains fs' ∧ g.free fs'.view = g.free fs.view := by
  have hentry : ∀ c < g.nFatent,g.entry fs'.view c = g.entry fs.view c := fun c hc =>
    g.entry_congr hc hview
  have hfree : g.free fs'.view = g.free fs.view := by
    refine Finset.filter_congr fun c hc => ?_
    rw [hentry c (Finset.mem_Ico.mp hc).2]
  refine ⟨⟨hcoherent,h.all.congr fun j c hc => hentry c (h.all.valid hc).2,fun c hlo hhi hne => ?_,
    fun hknown => ?_⟩,hfree⟩
  · rw [hentry c hhi] at hne
    exact h.used c hlo hhi hne
  · obtain hsame | hexact := hcount
    · rw [hsame,hfree]
      exact h.counted (hsame ▸ hknown)
    · exact hexact hknown

end Beside

/-! ### Files -/

section Files

variable {ι : Type} [DecidableEq ι] {g : Geometry} {chains : ι → List ℕ} {i : ι} {cs cs' : List ℕ}
  {n : ℕ} {fs fs' : FATFS}

/-- The file `i` has these clusters, with as many free ones and with the other files as they are. -/
structure Holds (g : Geometry) (chains : ι → List ℕ) (i : ι) (cs : List ℕ) (n : ℕ) (fs : FATFS) :
    Prop where
  alloc : Allocated g (Function.update chains i cs) fs
  free : (g.free fs.view).card = n
  away : ¬g.Sectors cs fs.winsect

theorem Holds.mem (_ : Holds g chains i cs n fs) {c : ℕ} (hc : c ∈ cs) :
    c ∈ Function.update chains i cs i := by
  rwa [Function.update_self]

theorem Holds.valid (h : Holds g chains i cs n fs) {c : ℕ} (hc : c ∈ cs) : 2 ≤ c ∧ c < g.nFatent :=
  h.alloc.all.valid (h.mem hc)

/-- The sectors of the file are in the data area. -/
theorem Holds.sectors (h : Holds g chains i cs n fs) {sect : ℕ} (hsect : g.Sectors cs sect) :
    g.database ≤ sect ∧ sect < nSects := by
  obtain ⟨c,hc,k,hk,rfl⟩ := hsect
  obtain ⟨hlo,hhi,_⟩ := cluster_sectors (h.valid hc).1 (h.valid hc).2
  exact ⟨hlo.trans (Nat.le_add_right _ _),(Nat.add_lt_add_left hk _).trans_le hhi⟩

theorem Holds.looked {fs' : FATFS} (h : Holds g chains i cs n fs) (hl : Looked g fs fs') :
    Holds g chains i cs n fs' := by
  refine ⟨h.alloc.kept hl,by rw [hl.free,h.free],fun hsect => ?_⟩
  rcases hl.window with hsame | hfat
  · exact h.away (hsame ▸ hsect)
  · exact data_not_fat (h.sectors hsect).1 hfat

/-- The chain is followed. -/
theorem Holds.getFat (h : Holds g chains i cs n fs) {k c d : ℕ} (hc : cs[k]? = some c)
    (hd : cs[k + 1]? = some d) : ∃ fs',fs.getFat g c = (d,fs') ∧ Looked g fs fs' := by
  obtain ⟨fs',hget,hlooked⟩ := h.alloc.getFat (h.mem (List.mem_of_getElem? hc))
  have hlinked := h.alloc.all.linked i
  rw [Function.update_self] at hlinked
  rw [hlinked.next_eq hc hd] at hget
  exact ⟨fs',hget,hlooked⟩

theorem Holds.next (h : Holds g chains i cs n fs) {k c d : ℕ} (hc : cs[k]? = some c)
    (hd : cs[k + 1]? = some d) : ∃ fs',fs.createChain g c = some (d,fs') ∧ Looked g fs fs' := by
  have hat : ∀ {j e : ℕ},cs[j]? = some e → (Function.update chains i cs i)[j]? = some e := by
    intro j e he
    rwa [Function.update_self]
  exact h.alloc.createChain_next (hat hc) (hat hd)

/-- The file gets a new cluster, or there is no free one. -/
theorem Holds.createChain (h : Holds g chains i cs n fs) :
    ∃ ret fs',fs.createChain g (cs.getLast?.getD 0) = some (ret,fs') ∧ Untouched g fs fs' ∧
      (n ≠ 0 ∧ Holds g chains i (cs ++ [ret]) (n - 1) fs' ∨
        ret = 0 ∧ n = 0 ∧ Holds g chains i cs 0 fs' ∧ Looked g fs fs') := by
  obtain ⟨ret,fs',hcall,huntouched,hres⟩ := h.alloc.createChain i
  rw [Function.update_self] at hcall hres
  refine ⟨ret,fs',hcall,huntouched,?_⟩
  rcases hres with ⟨hfree,halloc,hset,hfat⟩ | ⟨rfl,hnone,halloc,hlooked⟩
  · rw [Function.update_idem] at halloc
    have hpos : 0 < n := h.free ▸ Finset.card_pos.mpr ⟨ret,hfree⟩
    refine Or.inl ⟨by omega,halloc,?_,?_⟩
    · rw [hset,Finset.card_erase_of_mem hfree,h.free]
    · rintro ⟨c,hc,k,hk,hsect⟩
      have hvalid := halloc.all.valid (i := i) (c := c) (by rwa [Function.update_self])
      obtain ⟨hlo,_,_⟩ := cluster_sectors hvalid.1 hvalid.2
      exact data_not_fat (by omega) hfat
  · have hn : n = 0 := by rw [← h.free,hnone,Finset.card_empty]
    exact Or.inr ⟨rfl,hn,hn ▸ h.looked hlooked,hlooked⟩

/-- What the operations on a file leave alone: the bytes of no other sector than the file's. -/
structure Beside (g : Geometry) (cs : List ℕ) (fs fs' : FATFS) : Prop where
  view : ∀ a < nSects * SS,¬g.InFats a → ¬g.Sectors cs (a / SS) → fs'.view a = fs.view a
  mirrored : Mirrored g fs → Mirrored g fs'
  window : fs'.winsect = fs.winsect ∨ g.InFat fs'.winsect

theorem Beside.refl (g : Geometry) (cs : List ℕ) (fs : FATFS) : Beside g cs fs fs :=
  ⟨fun _ _ _ _ => rfl,fun h => h,Or.inl rfl⟩

theorem Beside.trans {fs'' : FATFS} (h : Beside g cs fs fs') (h' : Beside g cs' fs' fs'')
    (hle : cs <+: cs') : Beside g cs' fs fs'' := by
  refine ⟨fun a ha hfats hno => ?_,fun hm => h'.mirrored (h.mirrored hm),?_⟩
  · have hno' : ¬g.Sectors cs (a / SS) := fun ⟨c,hc,hrest⟩ => hno ⟨c,hle.subset hc,hrest⟩
    rw [h'.view a ha hfats hno,h.view a ha hfats hno']
  · rcases h'.window with hsame | hfat
    · rw [hsame]
      exact h.window
    · exact Or.inr hfat

theorem Looked.beside (h : Looked g fs fs') (cs : List ℕ) : Beside g cs fs fs' :=
  ⟨fun a ha hfats _ => h.untouched.view a ha hfats,h.kept.mirrored,h.window⟩

theorem Untouched.beside (h : Untouched g fs fs') (cs : List ℕ) : Beside g cs fs fs' :=
  ⟨fun a ha hfats _ => h.view a ha hfats,h.mirrored,h.window⟩

/-- A sector of the file is away from the window. -/
theorem Holds.window (h : Holds g chains i cs n fs) {sect : ℕ} (hsect : g.Sectors cs sect) :
    fs.winsect ≠ sect := fun he => h.away (he ▸ hsect)

omit [DecidableEq ι] in
theorem one_sector {sect : ℕ} (hsect : g.Sectors cs sect) : ∀ k < 1,g.Sectors cs (sect + k) := by
  intro k hk
  obtain rfl : k = 0 := by omega
  exact hsect

/-- A part of the data area of a file is written. -/
theorem Holds.write (h : Holds g chains i cs n fs) {sect count : ℕ} (hcount : 0 < count)
    (hsects : ∀ k < count,g.Sectors cs (sect + k)) (buff : Mem) :
    ∃ fs',fs.write buff sect count = (.ok,fs') ∧ Holds g chains i cs n fs' ∧
      fs'.view = memcpy fs.view (sect * SS) buff 0 (count * SS) ∧ Beside g cs fs fs' ∧
      fs'.wflag = fs.wflag := by
  have hlo : g.database ≤ sect := (h.sectors (hsects 0 hcount)).1
  have hlast := (h.sectors (hsects (count - 1) (by omega))).2
  have haway : fs.winsect < sect ∨ sect + count ≤ fs.winsect := by
    by_contra hin
    have hwin := h.window (hsects (fs.winsect - sect) (by omega))
    omega
  obtain ⟨fs',hwrite,hshows,hview,hwin,hwflag⟩ :=
    writeData h.alloc.coherent hcount hlo (by omega) haway buff
  have hfirst : ∀ a < (g.fatbase + g.fsize) * SS,
      memcpy fs.view (sect * SS) buff 0 (count * SS) a = fs.view a := by
    intro a ha
    have hfit := g.fatsFit
    have hfats := g.fatsOk
    have hle : g.fsize ≤ g.nFats * g.fsize := Nat.le_mul_of_pos_left _ (by omega)
    have hle' : (g.fatbase + g.fsize) * SS ≤ sect * SS := Nat.mul_le_mul_right SS (by omega)
    exact memcpy_outside (by omega)
  obtain ⟨halloc,hfree⟩ := h.alloc.congr hshows.coherent
    (fun a _ ha => by rw [hview]; exact hfirst a ha) (Or.inl hshows.freeClst)
  refine ⟨fs',hwrite,⟨halloc,by rw [hfree,h.free],hwin ▸ h.away⟩,hview,
    ⟨fun a _ _ hno => ?_,hshows.mirrored,Or.inl hwin⟩,hwflag⟩
  rw [hview]
  refine memcpy_outside ?_
  by_contra hin
  have hplace : sect ≤ a / SS ∧ a / SS < sect + count :=
    ⟨(Nat.le_div_iff_mul_le SS_pos).mpr (by omega),
      Nat.div_lt_of_lt_mul (by rw [Nat.mul_comm,Nat.add_mul]; omega)⟩
  apply hno
  have hsect := hsects (a / SS - sect) (by omega)
  rwa [Nat.add_sub_cancel' hplace.1] at hsect

/-- A part of the data area of a file is read. -/
theorem Holds.read (h : Holds g chains i cs n fs) {sect count : ℕ} (hcount : 0 < count)
    (hsects : ∀ k < count,g.Sectors cs (sect + k)) (buff : Mem) :
    ∃ data,fs.read buff sect count = (.ok,data) ∧
      ∀ j < count * SS,data j = fs.view (sect * SS + j) := by
  have hlast := (h.sectors (hsects (count - 1) (by omega))).2
  refine ⟨_,FATFS.read_sectors hcount (by omega) fs buff,fun j hj => ?_⟩
  have hcopied := @memcpy_inside buff fs.disk 0 (sect * SS) (count * SS) j hj
  rw [Nat.zero_add] at hcopied
  rw [hcopied]
  refine (view_away fun he => ?_).symm
  have hdiv : (sect * SS + j) / SS = sect + j / SS := by
    rw [Nat.mul_comm,Nat.mul_add_div SS_pos]
  have hk : j / SS < count := Nat.div_lt_of_lt_mul (by rwa [Nat.mul_comm])
  exact h.window (hsects _ hk) (by rw [← he,hdiv])

end Files

/-! ### Seeking on the disk -/

/-- The volume that `f_lseek` works on. The FAT search always ends, so there is a cluster number. -/
def Geometry.volume (g : Geometry) (validate : Fil Mem → FATFS → FResult) : FatVolume Mem FATFS where
  csizeLog := g.csizeLog
  nFatent := g.nFatent
  validate := validate
  getFat clst fs := fs.getFat g clst
  createChain clst fs := (fs.createChain g clst).getD (0,fs)
  clst2sect := g.clst2sect
  diskRead buf sect fs :=
    let (res,buf) := fs.read buf sect 1
    ((decide (res = .ok),buf),fs)
  diskWrite buf sect fs :=
    let (res,fs) := fs.write buf sect 1
    (decide (res = .ok),fs)

section Seeking

variable {ι : Type} [DecidableEq ι]

/-- The FAT can be walked, and what holds whatever is done to it still holds behind. -/
theorem Geometry.volume_walks (g : Geometry) (validate : Fil Mem → FATFS → FResult)
    (chains : ι → List ℕ) (i : ι) {P : List ℕ → FATFS → Prop}
    (hP : ∀ {cs cs' n n' fs fs'},Holds g chains i cs n fs → Holds g chains i cs' n' fs' →
      cs <+: cs' → Untouched g fs fs' → (cs' = cs → Looked g fs fs') → P cs fs → P cs' fs') :
    (g.volume validate).Walks fun cs n fs => Holds g chains i cs n fs ∧ P cs fs where
  nFatent := by
    obtain ⟨_,_,hsmall⟩ := entries_bound g
    show g.nFatent ≤ 0xFFFFFFFF
    omega
  cluster h c hc := by
    obtain ⟨hlo,hhi⟩ := h.1.valid hc
    obtain ⟨hdata,_,hpos⟩ := cluster_sectors hlo hhi
    exact ⟨hlo,hhi,by show g.clst2sect c ≠ 0; omega⟩
  getFat {cs n fs} h {k c d} hc hd := by
    obtain ⟨fs',hget,hlooked⟩ := h.1.getFat hc hd
    have hholds := h.1.looked hlooked
    exact ⟨fs',hget,hholds,hP h.1 hholds List.prefix_rfl hlooked.untouched (fun _ => hlooked) h.2⟩
  next {cs n fs} h {k c d} hc hd := by
    obtain ⟨fs',hcall,hlooked⟩ := h.1.next hc hd
    have hholds := h.1.looked hlooked
    refine ⟨fs',?_,hholds,hP h.1 hholds List.prefix_rfl hlooked.untouched (fun _ => hlooked) h.2⟩
    show (fs.createChain g c).getD (0,fs) = _
    rw [hcall,Option.getD_some]
  full {cs fs} h := by
    obtain ⟨ret,fs',hcall,huntouched,⟨hn,_⟩ | ⟨rfl,_,hholds,hlooked⟩⟩ := h.1.createChain
    · exact absurd rfl hn
    · refine ⟨fs',?_,hholds,hP h.1 hholds List.prefix_rfl huntouched (fun _ => hlooked) h.2⟩
      show (fs.createChain g _).getD (0,fs) = _
      rw [hcall,Option.getD_some]
  grow {cs n fs} h := by
    obtain ⟨ret,fs',hcall,huntouched,⟨_,hholds⟩ | ⟨_,hn,_⟩⟩ := h.1.createChain
    · refine ⟨ret,fs',?_,hholds,hP h.1 hholds (List.prefix_append _ _) huntouched
        (fun he => absurd he (by simp)) h.2⟩
      show (fs.createChain g _).getD (0,fs) = _
      rw [hcall,Option.getD_some]
    · omega

/-- The FAT and the RAM disk are the sound volume that `f_lseek` is for. -/
theorem Geometry.volume_sound (g : Geometry) (validate : Fil Mem → FATFS → FResult)
    (chains : ι → List ℕ) (i : ι) : (g.volume validate).Sound (Holds g chains i) where
  toWalks := by
    have hwalks := g.volume_walks validate chains i fun _ _ _ _ _ (h : True) => h
    simpa only [and_true] using hwalks
  diskRead {cs n fs} h c hc k hk buf := by
    obtain ⟨data,hread,_⟩ := h.read Nat.one_pos (one_sector ⟨c,hc,k,hk,rfl⟩) buf
    refine ⟨data,fs,?_,h⟩
    simp only [Geometry.volume,hread,decide_true]
  diskWrite {cs n fs} h c hc k hk buf := by
    obtain ⟨fs',hwrite,hholds,_⟩ := h.write Nat.one_pos (one_sector ⟨c,hc,k,hk,rfl⟩) buf
    refine ⟨fs',?_,hholds⟩
    simp only [Geometry.volume,hwrite,decide_true]

end Seeking

end UcVfs.Fatfs
