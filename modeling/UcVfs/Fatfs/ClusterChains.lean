import UcVfs.Fatfs.FatTable
import UcVfs.Framework.Links
import Mathlib.Data.Finset.Card
import Mathlib.Order.Interval.Finset.Nat

/-!
# Cluster chains

`create_chain` and `remove_chain` of `ff.c`. The FAT holds the chains of all files, a cluster is free
when no chain has it, and the count of the free clusters is right where it is known.
-/

namespace UcVfs.Fatfs

open Framework

namespace FATFS

variable (g : Geometry)

/-- Where the search for a free cluster starts; an error is what is returned at once. -/
def chainStart (clst : ℕ) (fs : FATFS) : Except ℕ ℕ × FATFS :=
  if clst = 0 then
    let scl := fs.lastClst
    (.ok (if scl = 0 ∨ scl ≥ g.nFatent then 1 else scl),fs)
  else
    let (cs,fs) := fs.getFat g clst
    if cs < 2 then (.error 1,fs)
    else if cs = 0xFFFFFFFF then (.error cs,fs)
    -- it is already followed by the next cluster
    else if cs < g.nFatent then (.error cs,fs)
    else (.ok clst,fs)

/-- Tests the cluster behind the one that is stretched. The result is this one, or 0 with the place
where another one is looked for. -/
def tryNext (clst scl : ℕ) (fs : FATFS) : Except ℕ (ℕ × ℕ) × FATFS :=
  if scl = clst then
    let ncl := if scl + 1 ≥ g.nFatent then 2 else scl + 1
    let (cs,fs) := fs.getFat g ncl
    if cs = 1 ∨ cs = 0xFFFFFFFF then (.error cs,fs)
    else if cs ≠ 0 then
      let cs := fs.lastClst
      (.ok (0,if cs ≥ 2 ∧ cs < g.nFatent then cs else scl),fs)
    else (.ok (ncl,scl),fs)
  else (.ok (0,scl),fs)

/-- The search loop. It comes back to where it started, or still runs without the fuel. -/
def findFree (scl : ℕ) : ℕ → ℕ → FATFS → Option (Except ℕ ℕ × FATFS)
  | 0,_,_ => none
  | fuel + 1,ncl,fs =>
    let ncl := ncl + 1
    if ncl ≥ g.nFatent ∧ 2 > scl then some (.error 0,fs)
    else
      let ncl := if ncl ≥ g.nFatent then 2 else ncl
      let (cs,fs) := fs.getFat g ncl
      if cs = 0 then some (.ok ncl,fs)
      else if cs = 1 ∨ cs = 0xFFFFFFFF then some (.error cs,fs)
      else if ncl = scl then some (.error 0,fs)
      else findFree scl fuel ncl fs

/-- The allocation information after a cluster was taken. -/
def took (ncl : ℕ) (fs : FATFS) : FATFS :=
  let fs := { fs with lastClst := ncl }
  if fs.freeClst > 0 ∧ fs.freeClst ≤ g.nFatent - 2 then
    { fs with freeClst := fs.freeClst - 1, fsiFlag := fs.fsiFlag ||| 1 }
  else fs

/-- The allocation information after a cluster was freed. -/
def gave (fs : FATFS) : FATFS :=
  if fs.freeClst < g.nFatent - 2 then
    { fs with freeClst := fs.freeClst + 1, fsiFlag := fs.fsiFlag ||| 1 }
  else fs

/-- Marks the new cluster and links it from the previous one. -/
def linkNew (clst ncl : ℕ) (fs : FATFS) : ℕ × FATFS :=
  let (res,fs) := fs.putFat g ncl 0xFFFFFFFF
  let (res,fs) := if res = .ok ∧ clst ≠ 0 then fs.putFat g clst ncl else (res,fs)
  if res = .ok then (ncl,fs.took g ncl)
  else (if res = .diskErr then 0xFFFFFFFF else 1,fs)

def createChain (clst : ℕ) (fs : FATFS) : Option (ℕ × FATFS) :=
  match fs.chainStart g clst with
  | (.error ret,fs) => some (ret,fs)
  | (.ok scl,fs) =>
    if fs.freeClst = 0 then some (0,fs)
    else
      match fs.tryNext g clst scl with
      | (.error ret,fs) => some (ret,fs)
      | (.ok (ncl,scl),fs) =>
        if ncl ≠ 0 then some (fs.linkNew g clst ncl)
        else
          match fs.findFree g scl g.nFatent scl with
          | some (.ok ncl,fs) => some (fs.linkNew g clst ncl)
          | some (.error ret,fs) => some (ret,fs)
          | none => none

/-- The loop of `remove_chain`. -/
def freeFrom : ℕ → ℕ → FATFS → Option (FResult × FATFS)
  | 0,_,_ => none
  | fuel + 1,clst,fs =>
    let (nxt,fs) := fs.getFat g clst
    if nxt = 0 then some (.ok,fs)
    else if nxt = 1 then some (.intErr,fs)
    else if nxt = 0xFFFFFFFF then some (.diskErr,fs)
    else
      match fs.putFat g clst 0 with
      | (.ok,fs) =>
        let fs := fs.gave g
        if nxt < g.nFatent then freeFrom fuel nxt fs else some (.ok,fs)
      | (res,fs) => some (res,fs)

def removeChain (clst pclst : ℕ) (fs : FATFS) : Option (FResult × FATFS) :=
  if clst < 2 ∨ clst ≥ g.nFatent then some (.intErr,fs)
  else if pclst ≠ 0 then
    match fs.putFat g pclst 0xFFFFFFFF with
    | (.ok,fs) => fs.freeFrom g g.nFatent clst
    | (res,fs) => some (res,fs)
  else fs.freeFrom g g.nFatent clst

end FATFS

/-- What the operations on the FAT leave alone: the rest of the volume, and that the number of free
clusters is known. -/
structure Untouched (g : Geometry) (fs fs' : FATFS) : Prop where
  view : ∀ a < nSects * SS,¬g.InFats a → fs'.view a = fs.view a
  mirrored : Mirrored g fs → Mirrored g fs'
  window : fs'.winsect = fs.winsect ∨ g.InFat fs'.winsect
  known : fs.freeClst ≤ g.nFatent - 2 → fs'.freeClst ≤ g.nFatent - 2

/-- What reading the FAT leaves alone: whatever the window shows. -/
structure Looked (g : Geometry) (fs fs' : FATFS) : Prop where
  kept : Kept g fs fs'
  window : fs'.winsect = fs.winsect ∨ g.InFat fs'.winsect

/-- The free clusters. -/
def Geometry.free (g : Geometry) (m : Mem) : Finset ℕ :=
  (Finset.Ico 2 g.nFatent).filter fun c => g.entry m c = 0

/-- The FAT holds these chains and no others, and the count of free clusters is right or unknown. -/
structure Allocated {ι : Type} (g : Geometry) (chains : ι → List ℕ) (fs : FATFS) : Prop where
  coherent : fs.Coherent
  all : LinkedAll (g.entry fs.view) (g.nFatent ≤ ·) (fun c => 2 ≤ c ∧ c < g.nFatent) chains
  used : ∀ c,2 ≤ c → c < g.nFatent → g.entry fs.view c ≠ 0 → ∃ i,c ∈ chains i
  counted : fs.freeClst ≤ g.nFatent - 2 → fs.freeClst = (g.free fs.view).card

section Entries

variable {g : Geometry} {fs fs' : FATFS} {m : Mem} {c : ℕ}

theorem Shows.entry (h : Shows g m fs fs') (hc : c < g.nFatent) :
    g.entry fs'.view c = g.entry m c :=
  g.entry_congr hc fun a _ ha => h.view a (g.inFat ha).1 (g.inFat ha).2

theorem Shows.free (h : Shows g m fs fs') : g.free fs'.view = g.free m := by
  refine Finset.filter_congr fun c hc => ?_
  rw [h.entry (Finset.mem_Ico.mp hc).2]

theorem mem_free : c ∈ g.free m ↔ (2 ≤ c ∧ c < g.nFatent) ∧ g.entry m c = 0 := by
  rw [Geometry.free,Finset.mem_filter,Finset.mem_Ico]

/-- No entry is read as the number that stands for a disk error. -/
theorem entry_lt (g : Geometry) (m : Mem) (c : ℕ) : g.entry m c < 2 ^ 28 := by
  rw [Geometry.entry]
  cases htype : g.fsType with
  | fat12 =>
    have hword := loadLE_lt m (g.entryAt c) 2
    simp only [FsType.entryBytes]
    split_ifs <;> omega
  | fat16 =>
    have hword := loadLE_lt m (g.entryAt c) 2
    simp only [FsType.entryBytes]
    omega
  | fat32 =>
    exact Nat.mod_lt _ (by decide)

/-- A cluster number fits an entry, and the mark behind the last cluster is none. -/
theorem entries_bound (g : Geometry) :
    g.nFatent < 2 ^ g.fsType.bits ∧ g.nFatent ≤ 0xFFFFFFFF % 2 ^ g.fsType.bits ∧
      g.nFatent < 2 ^ 28 := by
  have hentries := g.entriesOk.2
  cases htype : g.fsType with
  | fat12 =>
    rw [htype,FsType.maxFat] at hentries
    simp only [FsType.bits]
    omega
  | fat16 =>
    rw [htype,FsType.maxFat] at hentries
    simp only [FsType.bits]
    omega
  | fat32 =>
    rw [htype,FsType.maxFat] at hentries
    simp only [FsType.bits]
    omega

theorem Geometry.InMirror.inFats {a : ℕ} (h : g.InMirror a) : g.InFats a := by
  obtain ⟨hfats,hlo,hhi⟩ := h
  rw [Nat.add_mul] at hlo
  exact ⟨by omega,by rwa [hfats]⟩

theorem window_trans {fs'' : FATFS} (h : fs'.winsect = fs.winsect ∨ g.InFat fs'.winsect)
    (h' : fs''.winsect = fs'.winsect ∨ g.InFat fs''.winsect) :
    fs''.winsect = fs.winsect ∨ g.InFat fs''.winsect := by
  rcases h' with hsame | hfat
  · rwa [hsame]
  · exact Or.inr hfat

theorem Looked.refl (hfs : fs.Coherent) : Looked g fs fs := ⟨Kept.refl hfs,Or.inl rfl⟩

theorem Looked.trans {fs'' : FATFS} (h : Looked g fs fs') (h' : Looked g fs' fs'') :
    Looked g fs fs'' :=
  ⟨h.kept.trans h'.kept,window_trans h.window h'.window⟩

theorem Looked.entry (h : Looked g fs fs') (hc : c < g.nFatent) :
    g.entry fs'.view c = g.entry fs.view c :=
  h.kept.entry hc

theorem Looked.free (h : Looked g fs fs') : g.free fs'.view = g.free fs.view := h.kept.free

theorem Untouched.refl (fs : FATFS) : Untouched g fs fs :=
  ⟨fun _ _ _ => rfl,fun h => h,Or.inl rfl,fun h => h⟩

theorem Untouched.trans {fs'' : FATFS} (h : Untouched g fs fs') (h' : Untouched g fs' fs'') :
    Untouched g fs fs'' :=
  ⟨fun a ha hno => (h'.view a ha hno).trans (h.view a ha hno),
    fun hm => h'.mirrored (h.mirrored hm),window_trans h.window h'.window,
    fun hknown => h'.known (h.known hknown)⟩

theorem Looked.untouched (h : Looked g fs fs') : Untouched g fs fs' :=
  ⟨fun a ha hno => h.kept.view a ha fun hm => hno hm.inFats,h.kept.mirrored,h.window,
    fun hknown => h.kept.freeClst ▸ hknown⟩

theorem Shows.untouched {clst val : ℕ} (hclst : clst < g.nFatent)
    (h : Shows g (g.putEntry fs.view clst val) fs fs') (hfat : g.InFat fs'.winsect) :
    Untouched g fs fs' := by
  refine ⟨fun a ha hno => ?_,h.mirrored,Or.inr hfat,fun hknown => h.freeClst ▸ hknown⟩
  obtain ⟨hlo,hhi⟩ := g.entryAt_fits hclst
  have hfats := g.fatsOk
  have hfirst : (g.fatbase + g.fsize) * SS ≤ (g.fatbase + g.nFats * g.fsize) * SS := by
    refine Nat.mul_le_mul_right SS (Nat.add_le_add_left ?_ _)
    exact Nat.le_mul_of_pos_left _ (by omega)
  have hout : a < g.entryAt clst ∨ g.entryAt clst + g.fsType.entryBytes ≤ a := by
    by_contra hin
    exact hno ⟨by omega,by omega⟩
  rw [h.view a ha fun hm => hno hm.inFats,g.putEntry_outside _ _ hout]

/-- The table of the entries after one was put. -/
theorem Shows.entry_put {clst val : ℕ} (h : Shows g (g.putEntry m clst val) fs fs')
    (hc : c < g.nFatent) :
    g.entry fs'.view c = if c = clst then val % 2 ^ g.fsType.bits else g.entry m c := by
  rw [h.entry hc,g.entry_putEntry]

end Entries

/-! ### The account -/

section Account

variable {g : Geometry} {fs : FATFS}

/-- Other allocation information. -/
def FATFS.account (fs : FATFS) (last free flag : ℕ) : FATFS :=
  { fs with lastClst := last, freeClst := free, fsiFlag := flag }

variable {last free flag : ℕ}

@[simp] theorem account_view : (fs.account last free flag).view = fs.view := rfl

@[simp] theorem account_freeClst : (fs.account last free flag).freeClst = free := rfl

theorem FATFS.Coherent.account (h : fs.Coherent) : (fs.account last free flag).Coherent :=
  ⟨h.inside,h.clean⟩

theorem Untouched.account (hknown : fs.freeClst ≤ g.nFatent - 2 → free ≤ g.nFatent - 2) :
    Untouched g fs (fs.account last free flag) :=
  ⟨fun _ _ _ => rfl,fun h => ⟨h.pending,h.copies⟩,Or.inl rfl,hknown⟩

theorem took_spec (g : Geometry) (ncl : ℕ) (fs : FATFS) :
    ∃ last free flag,fs.took g ncl = fs.account last free flag ∧
      (free = fs.freeClst - 1 ∧ 0 < fs.freeClst ∧ fs.freeClst ≤ g.nFatent - 2 ∨
        free = fs.freeClst ∧ ¬(0 < fs.freeClst ∧ fs.freeClst ≤ g.nFatent - 2)) := by
  rw [FATFS.took]
  by_cases hknown : fs.freeClst > 0 ∧ fs.freeClst ≤ g.nFatent - 2
  · exact ⟨_,_,_,if_pos hknown,Or.inl ⟨rfl,hknown.1,hknown.2⟩⟩
  · exact ⟨ncl,fs.freeClst,fs.fsiFlag,if_neg hknown,Or.inr ⟨rfl,hknown⟩⟩

theorem gave_spec (g : Geometry) (fs : FATFS) :
    ∃ free flag,fs.gave g = fs.account fs.lastClst free flag ∧
      (free = fs.freeClst + 1 ∧ fs.freeClst < g.nFatent - 2 ∨
        free = fs.freeClst ∧ g.nFatent - 2 ≤ fs.freeClst) := by
  rw [FATFS.gave]
  by_cases hknown : fs.freeClst < g.nFatent - 2
  · exact ⟨_,_,if_pos hknown,Or.inl ⟨rfl,hknown⟩⟩
  · exact ⟨fs.freeClst,fs.fsiFlag,if_neg hknown,Or.inr ⟨rfl,not_lt.mp hknown⟩⟩

end Account

/-! ### The search -/

section Search

variable {g : Geometry} {fs : FATFS} {m : Mem}

/-- A cluster that is looked at: its entry is read, and is none of the error marks. -/
theorem look (hfs : fs.Coherent) (hone : ∀ c,2 ≤ c → c < g.nFatent → g.entry fs.view c ≠ 1) {c : ℕ}
    (hlo : 2 ≤ c) (hhi : c < g.nFatent) :
    ∃ fs',fs.getFat g c = (g.entry fs.view c,fs') ∧ Looked g fs fs' ∧
      ¬(g.entry fs.view c = 1 ∨ g.entry fs.view c = 0xFFFFFFFF) := by
  obtain ⟨fs',hget,hkept,hfat⟩ := getFat_spec hfs hlo hhi
  have hlt := entry_lt g fs.view c
  exact ⟨fs',hget,⟨hkept,Or.inr hfat⟩,fun h => h.elim (hone c hlo hhi) (by omega)⟩

/-- The loop finds a free cluster, or there is none from the place where it is to the place where it
started. -/
theorem findFree_spec {scl ncl fuel : ℕ} (hfs : fs.Coherent)
    (hone : ∀ c,2 ≤ c → c < g.nFatent → g.entry fs.view c ≠ 1) (hscl : 1 ≤ scl ∧ scl < g.nFatent)
    (hncl : 1 ≤ ncl ∧ ncl < g.nFatent)
    (hfuel : if ncl < scl then scl ≤ ncl + fuel else g.nFatent + scl ≤ ncl + fuel) :
    ∃ r fs',fs.findFree g scl fuel ncl = some (r,fs') ∧ Looked g fs fs' ∧
      ((∃ c ∈ g.free fs.view,r = .ok c) ∨ (r = .error 0 ∧ ∀ c ∈ g.free fs.view,
        ¬(ncl < c ∧ c ≤ scl) ∧ ¬(scl ≤ ncl ∧ (ncl < c ∨ c ≤ scl)))) := by
  induction fuel generalizing ncl fs with
  | zero => split at hfuel <;> omega
  | succ fuel ih =>
    rw [FATFS.findFree]
    by_cases hlast : ncl + 1 ≥ g.nFatent ∧ 2 > scl
    · rw [if_pos hlast]
      refine ⟨_,fs,rfl,Looked.refl hfs,Or.inr ⟨rfl,fun c hc => ?_⟩⟩
      have hvalid := (mem_free.mp hc).1
      omega
    · rw [if_neg hlast]
      -- the cluster of this round
      obtain ⟨nxt,hnxt,hlo,hhi,hround⟩ : ∃ nxt,(if ncl + 1 ≥ g.nFatent then 2 else ncl + 1) = nxt ∧
          2 ≤ nxt ∧ nxt < g.nFatent ∧
          (nxt = ncl + 1 ∨ ncl + 1 = g.nFatent ∧ nxt = 2 ∧ 2 ≤ scl) := by
        have hentries := g.entriesOk.1
        by_cases hwrap : ncl + 1 ≥ g.nFatent
        · exact ⟨2,if_pos hwrap,le_rfl,hentries,Or.inr (by omega)⟩
        · exact ⟨ncl + 1,if_neg hwrap,by omega,by omega,Or.inl rfl⟩
      obtain ⟨fs',hget,hkept,hgood⟩ := look hfs hone hlo hhi
      simp only [hnxt,hget]
      by_cases hfree : g.entry fs.view nxt = 0
      · rw [if_pos hfree]
        exact ⟨_,fs',rfl,hkept,Or.inl ⟨nxt,mem_free.mpr ⟨⟨hlo,hhi⟩,hfree⟩,rfl⟩⟩
      · have hused : ∀ c ∈ g.free fs.view,c ≠ nxt := by
          rintro c hc rfl
          exact hfree (mem_free.mp hc).2
        rw [if_neg hfree,if_neg hgood]
        by_cases hstart : nxt = scl
        · rw [if_pos hstart]
          refine ⟨_,fs',rfl,hkept,Or.inr ⟨rfl,fun c hc => ?_⟩⟩
          have hvalid := (mem_free.mp hc).1
          have hne := hused c hc
          omega
        · rw [if_neg hstart]
          have hone' : ∀ c,2 ≤ c → c < g.nFatent → g.entry fs'.view c ≠ 1 := by
            intro c hc hc'
            rw [hkept.entry hc']
            exact hone c hc hc'
          have hleft : if nxt < scl then scl ≤ nxt + fuel else g.nFatent + scl ≤ nxt + fuel := by
            split_ifs at hfuel ⊢ <;> omega
          obtain ⟨r,fs'',hfind,hkept',hr⟩ := ih hkept.kept.coherent hone' (by omega) hleft
          rw [hkept.free] at hr
          refine ⟨r,fs'',hfind,hkept.trans hkept',hr.imp_right fun h => ⟨h.1,fun c hc => ?_⟩⟩
          have hvalid := (mem_free.mp hc).1
          have hne := hused c hc
          have hrest := h.2 c hc
          omega

end Search

section Allocated

variable {ι : Type} {g : Geometry} {chains : ι → List ℕ} {fs fs' : FATFS} {i : ι} {c d : ℕ}

theorem Allocated.kept (h : Allocated g chains fs) (hk : Looked g fs fs') : Allocated g chains fs' := by
  refine ⟨hk.kept.coherent,h.all.congr fun j c hc => hk.entry (h.all.valid hc).2,fun c hlo hhi hne => ?_,?_⟩
  · rw [hk.entry hhi] at hne
    exact h.used c hlo hhi hne
  · rw [hk.kept.freeClst,hk.free]
    exact h.counted

theorem Allocated.account (h : Allocated g chains fs) {last free flag : ℕ}
    (hcounted : free ≤ g.nFatent - 2 → free = (g.free fs.view).card) :
    Allocated g chains (fs.account last free flag) :=
  ⟨h.coherent.account,h.all,h.used,hcounted⟩

theorem Allocated.getFat (h : Allocated g chains fs) (hc : c ∈ chains i) :
    ∃ fs',fs.getFat g c = (g.entry fs.view c,fs') ∧ Looked g fs fs' := by
  obtain ⟨fs',hget,hkept,hfat⟩ := getFat_spec h.coherent (h.all.valid hc).1 (h.all.valid hc).2
  exact ⟨fs',hget,hkept,Or.inr hfat⟩

/-- The entry of a cluster in use is a cluster or the mark behind the last one. -/
theorem Allocated.entry_chain (h : Allocated g chains fs) (hc : c ∈ chains i) :
    2 ≤ g.entry fs.view c := by
  rcases (h.all.linked i).next_mem hc with hnext | hend
  · exact (h.all.valid hnext).1
  · exact le_trans (le_of_lt g.entriesOk.1) hend

theorem Allocated.entry_ne_one (h : Allocated g chains fs) (hlo : 2 ≤ c) (hhi : c < g.nFatent) :
    g.entry fs.view c ≠ 1 := by
  intro hone
  obtain ⟨i,hc⟩ := h.used c hlo hhi (by omega)
  have hle := h.entry_chain hc
  omega

/-- A free cluster is in no chain. -/
theorem Allocated.free_iff (h : Allocated g chains fs) :
    c ∈ g.free fs.view ↔ (2 ≤ c ∧ c < g.nFatent) ∧ ∀ i,c ∉ chains i := by
  rw [mem_free]
  refine and_congr_right fun hvalid => ⟨fun hfree i hc => ?_,fun hno => ?_⟩
  · have hle := h.entry_chain hc
    omega
  · by_contra hne
    obtain ⟨i,hc⟩ := h.used c hvalid.1 hvalid.2 hne
    exact hno i hc

/-- The search starts somewhere, when the chain ends at the cluster that is to be stretched. -/
theorem Allocated.chainStart (h : Allocated g chains fs) (i : ι) :
    ∃ scl fs',fs.chainStart g ((chains i).getLast?.getD 0) = (.ok scl,fs') ∧ Looked g fs fs' ∧
      (1 ≤ scl ∧ scl < g.nFatent) ∧
      (scl = (chains i).getLast?.getD 0 ∨ (chains i).getLast?.getD 0 = 0) := by
  have hentries := g.entriesOk.1
  rw [FATFS.chainStart]
  cases hlast : (chains i).getLast? with
  | none =>
    refine ⟨_,fs,if_pos rfl,Looked.refl h.coherent,?_,Or.inr rfl⟩
    by_cases hbad : fs.lastClst = 0 ∨ fs.lastClst ≥ g.nFatent
    · rw [if_pos hbad]
      omega
    · rw [if_neg hbad]
      omega
  | some c =>
    have hc := List.mem_of_getLast? hlast
    obtain ⟨hlo,hhi⟩ := h.all.valid hc
    have hend := (h.all.linked i).next_last hlast
    have hlt := entry_lt g fs.view c
    obtain ⟨fs',hget,hkept⟩ := h.getFat hc
    have hne : ¬c = 0 := by omega
    simp only [Option.getD_some,if_neg hne,hget]
    rw [if_neg (by omega),if_neg (by omega),if_neg (by omega)]
    exact ⟨c,fs',rfl,hkept,⟨by omega,hhi⟩,Or.inl rfl⟩

theorem Allocated.tryNext (h : Allocated g chains fs) (clst : ℕ) {scl : ℕ}
    (hscl : 1 ≤ scl ∧ scl < g.nFatent) :
    ∃ ncl scl' fs',fs.tryNext g clst scl = (.ok (ncl,scl'),fs') ∧ Looked g fs fs' ∧
      (ncl ∈ g.free fs.view ∨ ncl = 0 ∧ 1 ≤ scl' ∧ scl' < g.nFatent) := by
  have hentries := g.entriesOk.1
  rw [FATFS.tryNext]
  by_cases hsame : scl = clst
  · rw [if_pos hsame]
    obtain ⟨ncl,hncl,hlo,hhi⟩ : ∃ ncl,(if scl + 1 ≥ g.nFatent then 2 else scl + 1) = ncl ∧
        2 ≤ ncl ∧ ncl < g.nFatent := by
      by_cases hwrap : scl + 1 ≥ g.nFatent
      · exact ⟨2,if_pos hwrap,le_rfl,hentries⟩
      · exact ⟨scl + 1,if_neg hwrap,by omega,by omega⟩
    obtain ⟨fs',hget,hkept,hgood⟩ :=
      look h.coherent (fun c hlo hhi => h.entry_ne_one hlo hhi) hlo hhi
    simp only [hncl,hget]
    rw [if_neg hgood]
    by_cases hfree : g.entry fs.view ncl = 0
    · rw [if_neg (not_not.mpr hfree)]
      exact ⟨ncl,scl,fs',rfl,hkept,Or.inl (mem_free.mpr ⟨⟨hlo,hhi⟩,hfree⟩)⟩
    · rw [if_pos hfree]
      refine ⟨0,_,fs',rfl,hkept,Or.inr ⟨rfl,?_⟩⟩
      split_ifs <;> omega
  · rw [if_neg hsame]
    exact ⟨0,scl,fs,rfl,Looked.refl h.coherent,Or.inr ⟨rfl,hscl⟩⟩

variable [DecidableEq ι]

/-- A free cluster is linked behind the last one of a chain. -/
theorem Allocated.linkNew (h : Allocated g chains fs) (i : ι) (hd : d ∈ g.free fs.view) :
    ∃ fs',fs.linkNew g ((chains i).getLast?.getD 0) d = (d,fs') ∧
      Allocated g (Function.update chains i (chains i ++ [d])) fs' ∧ Untouched g fs fs' ∧
      g.free fs'.view = (g.free fs.view).erase d ∧ g.InFat fs'.winsect := by
  obtain ⟨⟨hlo,hhi⟩,hnew⟩ := h.free_iff.mp hd
  obtain ⟨hbits,hmark,_⟩ := entries_bound g
  obtain ⟨fs₁,hput₁,hshows₁,hfat₁⟩ := putFat_spec (g := g) h.coherent hlo hhi 0xFFFFFFFF
  -- the table and the rest of the volume once the new cluster is linked
  obtain ⟨fs₂,hput₂,hcoherent,hentry,huntouched,hcount,hfat⟩ : ∃ fs₂,
      (if FResult.ok = .ok ∧ (chains i).getLast?.getD 0 ≠ 0 then
        fs₁.putFat g ((chains i).getLast?.getD 0) d else (.ok,fs₁)) = (.ok,fs₂) ∧ fs₂.Coherent ∧
      (∀ c < g.nFatent,g.entry fs₂.view c = if c ∈ (chains i).getLast? then d
        else if c = d then 0xFFFFFFFF % 2 ^ g.fsType.bits else g.entry fs.view c) ∧
      Untouched g fs fs₂ ∧ fs₂.freeClst = fs.freeClst ∧ g.InFat fs₂.winsect := by
    cases hlast : (chains i).getLast? with
    | none =>
      refine ⟨fs₁,if_neg (by simp),hshows₁.coherent,fun c hc => ?_,hshows₁.untouched hhi hfat₁,
        hshows₁.freeClst,hfat₁⟩
      rw [hshows₁.entry_put hc]
      exact (if_neg (by simp)).symm
    | some p =>
      obtain ⟨hplo,hphi⟩ := h.all.valid (List.mem_of_getLast? hlast)
      obtain ⟨fs₂,hput₂,hshows₂,hfat₂⟩ := putFat_spec (g := g) hshows₁.coherent hplo hphi d
      have hne : p ≠ 0 := by omega
      refine ⟨fs₂,(if_pos ⟨rfl,hne⟩).trans hput₂,hshows₂.coherent,fun c hc => ?_,
        (hshows₁.untouched hhi hfat₁).trans (hshows₂.untouched hphi hfat₂),
        hshows₂.freeClst.trans hshows₁.freeClst,hfat₂⟩
      have hcut : d % 2 ^ g.fsType.bits = d := Nat.mod_eq_of_lt (by omega)
      rw [hshows₂.entry_put hc,hshows₁.entry_put hc,hcut]
      simp only [Option.mem_def,Option.some.injEq,eq_comm]
  obtain ⟨last,free,flag,htook,hfree⟩ := took_spec g d fs₂
  rw [FATFS.linkNew,hput₁]
  dsimp only
  rw [hput₂]
  dsimp only
  rw [if_pos rfl,htook]
  have hold : ∀ j,∀ c ∈ chains j,c ≠ d := by
    rintro j c hc rfl
    exact hnew j hc
  have hset : g.free fs₂.view = (g.free fs.view).erase d := by
    ext c
    rw [Finset.mem_erase,mem_free,mem_free]
    by_cases hc : 2 ≤ c ∧ c < g.nFatent
    · rw [hentry c hc.2]
      split_ifs with hp hc'
      · have hchain := h.entry_chain (List.mem_of_getLast? hp)
        omega
      · have hpos := g.entriesOk.1
        omega
      · tauto
    · tauto
  refine ⟨_,rfl,⟨hcoherent.account,?_,fun c hlo' hhi' hne => ?_,fun hknown => ?_⟩,
    huntouched.trans (.account (by omega)),hset,hfat⟩
  · refine h.all.grow (fun hc => by omega) hnew ⟨hlo,hhi⟩ ?_ (fun c hc => ?_) fun j c hc hl => ?_
    · show g.nFatent ≤ g.entry fs₂.view d
      have hno : d ∉ (chains i).getLast? := fun hl => hnew i (List.mem_of_getLast? hl)
      rw [hentry d hhi,if_neg hno,if_pos rfl]
      exact hmark
    · show g.entry fs₂.view c = d
      rw [hentry c (h.all.valid (List.mem_of_getLast? hc)).2,if_pos hc]
    · show g.entry fs₂.view c = _
      rw [hentry c (h.all.valid hc).2,if_neg hl,if_neg (hold j c hc)]
  · by_cases hc : c = d
    · exact ⟨i,by rw [Function.update_self,hc]; simp⟩
    · have hnot : c ∉ g.free fs.view := by
        intro hmem
        have hmem' : c ∈ g.free fs₂.view := hset ▸ Finset.mem_erase.mpr ⟨hc,hmem⟩
        exact hne (mem_free.mp hmem').2
      obtain ⟨j,hj⟩ : ∃ j,c ∈ chains j := by
        by_contra hno
        exact hnot (h.free_iff.mpr ⟨⟨hlo',hhi'⟩,not_exists.mp hno⟩)
      by_cases hij : j = i
      · exact ⟨i,by rw [Function.update_self,← hij]; exact List.mem_append_left _ hj⟩
      · exact ⟨j,by rwa [Function.update_of_ne hij]⟩
  · show free = (g.free fs₂.view).card
    have hcounted := h.counted
    have hpos : 0 < (g.free fs.view).card := Finset.card_pos.mpr ⟨d,hd⟩
    rw [hset,Finset.card_erase_of_mem hd]
    have hknown : free ≤ g.nFatent - 2 := hknown
    rw [hcount] at hfree
    omega

/-- `create_chain` behind the last cluster of a chain, or for a file that has none yet: it takes a
free cluster, if there is one. -/
theorem Allocated.createChain (h : Allocated g chains fs) (i : ι) :
    ∃ ret fs',fs.createChain g ((chains i).getLast?.getD 0) = some (ret,fs') ∧
      Untouched g fs fs' ∧
      (ret ∈ g.free fs.view ∧ Allocated g (Function.update chains i (chains i ++ [ret])) fs' ∧
          g.free fs'.view = (g.free fs.view).erase ret ∧ g.InFat fs'.winsect ∨
        ret = 0 ∧ g.free fs.view = ∅ ∧ Allocated g chains fs' ∧ Looked g fs fs') := by
  obtain ⟨scl,fs₁,hstart,hkept₁,hscl,_⟩ := h.chainStart i
  have h₁ := h.kept hkept₁
  simp only [FATFS.createChain,hstart]
  by_cases hnone : fs₁.freeClst = 0
  · rw [if_pos hnone]
    have hcount := h₁.counted (by omega)
    have hempty : g.free fs₁.view = ∅ := Finset.card_eq_zero.mp (hcount ▸ hnone)
    exact ⟨0,fs₁,rfl,hkept₁.untouched,Or.inr ⟨rfl,hkept₁.free ▸ hempty,h₁,hkept₁⟩⟩
  · rw [if_neg hnone]
    obtain ⟨ncl,scl',fs₂,htry,hkept₂,hncl⟩ :=
      h₁.tryNext ((chains i).getLast?.getD 0) hscl
    have h₂ := h₁.kept hkept₂
    have hkept : Looked g fs fs₂ := hkept₁.trans hkept₂
    have hlink : ∀ {d fs₃},d ∈ g.free fs.view → Looked g fs fs₃ → ∃ fs',
        fs₃.linkNew g ((chains i).getLast?.getD 0) d = (d,fs') ∧ Untouched g fs fs' ∧
        Allocated g (Function.update chains i (chains i ++ [d])) fs' ∧
        g.free fs'.view = (g.free fs.view).erase d ∧ g.InFat fs'.winsect := by
      intro d fs₃ hd hkept₃
      rw [← hkept₃.free] at hd
      obtain ⟨fs',hlink,halloc,huntouched,hfree,hfat⟩ := (h.kept hkept₃).linkNew i hd
      rw [hkept₃.free] at hfree
      exact ⟨fs',hlink,hkept₃.untouched.trans huntouched,halloc,hfree,hfat⟩
    simp only [htry]
    rcases hncl with hfree | ⟨rfl,hscl'⟩
    · have hne : ncl ≠ 0 := by
        have hlo := (mem_free.mp hfree).1.1
        omega
      rw [hkept₁.free] at hfree
      obtain ⟨fs',hlink,huntouched,halloc,herase⟩ := hlink hfree hkept
      rw [if_pos hne,hlink]
      exact ⟨ncl,fs',rfl,huntouched,Or.inl ⟨hfree,halloc,herase⟩⟩
    · rw [if_neg (not_not.mpr rfl)]
      have hfuel : if scl' < scl' then scl' ≤ scl' + g.nFatent
          else g.nFatent + scl' ≤ scl' + g.nFatent := by
        rw [if_neg (lt_irrefl _)]
        omega
      obtain ⟨r,fs₃,hfind,hkept₃,hr⟩ := findFree_spec h₂.coherent
        (fun c hlo hhi => h₂.entry_ne_one hlo hhi) hscl' hscl' hfuel
      rw [hkept.free] at hr
      have hall : Looked g fs fs₃ := hkept.trans hkept₃
      simp only [hfind]
      rcases hr with ⟨d,hd,rfl⟩ | ⟨rfl,hno⟩
      · obtain ⟨fs',hlink,huntouched,halloc,herase⟩ := hlink hd hall
        simp only [hlink]
        exact ⟨d,fs',rfl,huntouched,Or.inl ⟨hd,halloc,herase⟩⟩
      · -- every cluster was looked at
        have hempty : g.free fs.view = ∅ := by
          refine Finset.eq_empty_of_forall_notMem fun c hc => ?_
          have hvalid := (mem_free.mp hc).1
          have hlooked := hno c hc
          omega
        exact ⟨0,fs₃,rfl,hall.untouched,Or.inr ⟨rfl,hempty,h.kept hall,hall⟩⟩

omit [DecidableEq ι] in
/-- Before the last cluster `create_chain` follows the chain. -/
theorem Allocated.createChain_next (h : Allocated g chains fs) {k : ℕ}
    (hc : (chains i)[k]? = some c) (hd : (chains i)[k + 1]? = some d) :
    ∃ fs',fs.createChain g c = some (d,fs') ∧ Looked g fs fs' := by
  have hmem := List.mem_of_getElem? hc
  obtain ⟨hlo,hhi⟩ := h.all.valid hmem
  obtain ⟨hdlo,hdhi⟩ := h.all.valid (List.mem_of_getElem? hd)
  have hnext := (h.all.linked i).next_eq hc hd
  obtain ⟨_,_,hsmall⟩ := entries_bound g
  obtain ⟨fs',hget,hkept⟩ := h.getFat hmem
  have hne : ¬c = 0 := by omega
  rw [hnext] at hget
  refine ⟨fs',?_,hkept⟩
  rw [FATFS.createChain,FATFS.chainStart,if_neg hne,hget]
  dsimp only
  rw [if_neg (by omega),if_neg (by omega),if_pos hdhi]

/-- The first cluster of a chain is freed. -/
theorem Allocated.drop {l : List ℕ} (h : Allocated g chains fs) (hi : chains i = c :: l) :
    ∃ fs',fs.putFat g c 0 = (.ok,fs') ∧ Allocated g (Function.update chains i l) (fs'.gave g) ∧
      Untouched g fs (fs'.gave g) ∧ g.free (fs'.gave g).view = insert c (g.free fs.view) := by
  have hc : c ∈ chains i := hi ▸ List.mem_cons_self
  obtain ⟨hlo,hhi⟩ := h.all.valid hc
  obtain ⟨fs',hput,hshows,hfat⟩ := putFat_spec (g := g) h.coherent hlo hhi 0
  have hentry : ∀ d < g.nFatent,g.entry fs'.view d = if d = c then 0 else g.entry fs.view d := by
    intro d hd
    rw [hshows.entry_put hd,Nat.zero_mod]
  have hnot : c ∉ g.free fs.view := fun hfree => (h.free_iff.mp hfree).2 i hc
  have hset : g.free fs'.view = insert c (g.free fs.view) := by
    ext d
    rw [Finset.mem_insert,mem_free,mem_free]
    by_cases hd : 2 ≤ d ∧ d < g.nFatent
    · rw [hentry d hd.2]
      by_cases he : d = c
      · simp [he,hlo,hhi]
      · rw [if_neg he]
        tauto
    · have hne : d ≠ c := by
        rintro rfl
        exact hd ⟨hlo,hhi⟩
      tauto
  obtain ⟨free,flag,hgave,hfree⟩ := gave_spec g fs'
  refine ⟨fs',hput,?_⟩
  rw [hgave]
  refine ⟨⟨hshows.coherent.account,?_,fun d hlo' hhi' hne => ?_,fun hknown => ?_⟩,
    (hshows.untouched hhi hfat).trans (.account (by omega)),hset⟩
  · refine h.all.drop (fun hd => by omega) hi fun j d hd hne => ?_
    show g.entry fs'.view d = _
    rw [hentry d (h.all.valid hd).2,if_neg hne]
  · have hne : g.entry fs'.view d ≠ 0 := hne
    rw [hentry d hhi'] at hne
    by_cases he : d = c
    · rw [if_pos he] at hne
      exact absurd rfl hne
    · rw [if_neg he] at hne
      obtain ⟨j,hj⟩ := h.used d hlo' hhi' hne
      by_cases hij : j = i
      · rw [hij,hi] at hj
        exact ⟨i,by rw [Function.update_self]; exact (List.mem_cons.mp hj).resolve_left he⟩
      · exact ⟨j,by rwa [Function.update_of_ne hij]⟩
  · show free = (g.free fs'.view).card
    have hknown : free ≤ g.nFatent - 2 := hknown
    have hcounted := h.counted
    -- not all clusters were free
    have hfull : (g.free fs.view).card < g.nFatent - 2 := by
      have hsub : insert c (g.free fs.view) ⊆ Finset.Ico 2 g.nFatent := by
        intro d hd
        rw [Finset.mem_Ico]
        rcases Finset.mem_insert.mp hd with rfl | hd
        · exact ⟨hlo,hhi⟩
        · exact (mem_free.mp hd).1
      have hcard := Finset.card_le_card hsub
      rw [Finset.card_insert_of_notMem hnot,Nat.card_Ico] at hcard
      omega
    rw [hset,Finset.card_insert_of_notMem hnot]
    rw [hshows.freeClst] at hfree
    omega

/-- The loop frees a whole chain. -/
theorem Allocated.freeFrom {fuel : ℕ} {l : List ℕ} (h : Allocated g chains fs)
    (hi : chains i = c :: l) (hfuel : l.length < fuel) :
    ∃ fs',fs.freeFrom g fuel c = some (.ok,fs') ∧
      Allocated g (Function.update chains i []) fs' ∧ Untouched g fs fs' ∧
      g.free fs'.view = g.free fs.view ∪ (c :: l).toFinset := by
  induction fuel generalizing chains fs c l with
  | zero => omega
  | succ fuel ih =>
    have hc : c ∈ chains i := hi ▸ List.mem_cons_self
    obtain ⟨hlo,hhi⟩ := h.all.valid hc
    obtain ⟨_,_,hsmall⟩ := entries_bound g
    have hused := h.entry_chain hc
    have hlt := entry_lt g fs.view c
    obtain ⟨fs₁,hget,hkept⟩ := h.getFat hc
    obtain ⟨fs₂,hput,halloc,huntouched,hset⟩ := (h.kept hkept).drop hi
    rw [hkept.free] at hset
    have hsteps := hkept.untouched.trans huntouched
    have hlinked := h.all.linked i
    rw [hi] at hlinked
    simp only [FATFS.freeFrom,hget,hput]
    rw [if_neg (by omega),if_neg (by omega),if_neg (by omega)]
    cases l with
    | nil =>
      have hend : g.nFatent ≤ g.entry fs.view c := hlinked
      rw [if_neg (not_lt.mpr hend)]
      refine ⟨_,rfl,halloc,hsteps,?_⟩
      rw [hset,Finset.insert_eq,Finset.union_comm]
      rfl
    | cons d l =>
      have hd : d ∈ chains i := hi ▸ List.mem_cons_of_mem _ List.mem_cons_self
      have hnext : g.entry fs.view c = d := hlinked.1
      rw [hnext,if_pos (h.all.valid hd).2]
      have hrest : Function.update chains i (d :: l) i = d :: l := Function.update_self ..
      have hfuel' : l.length < fuel := by
        rw [List.length_cons] at hfuel
        omega
      obtain ⟨fs',hloop,halloc',huntouched',hset'⟩ := ih halloc hrest hfuel'
      rw [Function.update_idem] at halloc'
      refine ⟨fs',hloop,halloc',hsteps.trans huntouched',?_⟩
      rw [hset',hset,List.toFinset_cons (a := c),Finset.insert_union,Finset.union_insert]

omit [DecidableEq ι] in
/-- No chain has more clusters than the volume. -/
theorem Allocated.length_le (h : Allocated g chains fs) (i : ι) :
    (chains i).length ≤ g.nFatent - 2 := by
  have hsub : (chains i).toFinset ⊆ Finset.Ico 2 g.nFatent := by
    intro c hc
    exact Finset.mem_Ico.mpr (h.all.valid (List.mem_toFinset.mp hc))
  have hcard := Finset.card_le_card hsub
  have hnodup := h.all.nodup (fun hc => by omega) i
  rwa [List.toFinset_card_of_nodup hnodup,Nat.card_Ico] at hcard

/-- The clusters that are to be freed become a chain of their own. -/
theorem Allocated.endBefore {l₁ l₂ : List ℕ} (h : Allocated g chains fs)
    (hi : chains i = l₁ ++ c :: l₂) :
    ∃ fs₁,fs.removeChain g c (l₁.getLast?.getD 0) = fs₁.freeFrom g g.nFatent c ∧
      Allocated g (fun j : Option ι => j.elim (c :: l₂) (Function.update chains i l₁)) fs₁ ∧
      Untouched g fs fs₁ ∧ g.free fs₁.view = g.free fs.view := by
  have hc : c ∈ chains i := hi ▸ List.mem_append_right _ List.mem_cons_self
  obtain ⟨hlo,hhi⟩ := h.all.valid hc
  have hvalid : ¬(c < 2 ∨ c ≥ g.nFatent) := by omega
  have hpos := g.entriesOk.1
  obtain ⟨_,hmark,_⟩ := entries_bound g
  have hlast : ∀ p ∈ l₁.getLast?,p ∈ chains i := fun p hp =>
    hi ▸ List.mem_append_left _ (List.mem_of_getLast? hp)
  obtain ⟨fs₁,hrun,hcoherent,hentry,huntouched,hcount⟩ : ∃ fs₁,
      fs.removeChain g c (l₁.getLast?.getD 0) = fs₁.freeFrom g g.nFatent c ∧ fs₁.Coherent ∧
      (∀ d < g.nFatent,g.entry fs₁.view d = if d ∈ l₁.getLast? then
        0xFFFFFFFF % 2 ^ g.fsType.bits else g.entry fs.view d) ∧
      Untouched g fs fs₁ ∧ fs₁.freeClst = fs.freeClst := by
    rw [FATFS.removeChain,if_neg hvalid]
    cases hp : l₁.getLast? with
    | none =>
      exact ⟨fs,if_neg (by simp),h.coherent,fun d _ => (if_neg (by simp)).symm,.refl fs,rfl⟩
    | some p =>
      obtain ⟨hplo,hphi⟩ := h.all.valid (hlast p hp)
      have hne : p ≠ 0 := by omega
      obtain ⟨fs₁,hput,hshows,hfat⟩ := putFat_spec (g := g) h.coherent hplo hphi 0xFFFFFFFF
      refine ⟨fs₁,?_,hshows.coherent,fun d hd => ?_,hshows.untouched hphi hfat,hshows.freeClst⟩
      · rw [Option.getD_some,if_pos hne,hput]
      · rw [hshows.entry_put hd]
        simp only [Option.mem_def,Option.some.injEq,eq_comm]
  have hzero : ∀ d < g.nFatent,g.entry fs₁.view d = 0 ↔ g.entry fs.view d = 0 := by
    intro d hd
    rw [hentry d hd]
    by_cases hp : d ∈ l₁.getLast?
    · have hused := h.entry_chain (hlast d hp)
      rw [if_pos hp]
      omega
    · rw [if_neg hp]
  have hset : g.free fs₁.view = g.free fs.view :=
    Finset.filter_congr fun d hd => hzero d (Finset.mem_Ico.mp hd).2
  refine ⟨fs₁,hrun,⟨hcoherent,?_,fun d hlo' hhi' hne => ?_,?_⟩,huntouched,hset⟩
  · refine h.all.split (fun hc => by omega) hi (fun p hp => ?_) fun j d hd hp => ?_
    · show g.nFatent ≤ g.entry fs₁.view p
      rw [hentry p (h.all.valid (hlast p hp)).2,if_pos hp]
      exact hmark
    · show g.entry fs₁.view d = _
      rw [hentry d (h.all.valid hd).2,if_neg hp]
  · obtain ⟨j,hj⟩ := h.used d hlo' hhi' fun he => hne ((hzero d hhi').mpr he)
    by_cases hij : j = i
    · rw [hij,hi] at hj
      rcases List.mem_append.mp hj with hfirst | hrest
      · refine ⟨some i,?_⟩
        show d ∈ Function.update chains i l₁ i
        rwa [Function.update_self]
      · exact ⟨none,hrest⟩
    · refine ⟨some j,?_⟩
      show d ∈ Function.update chains i l₁ j
      rwa [Function.update_of_ne hij]
  · rw [hcount,hset]
    exact h.counted

/-- `remove_chain` frees the clusters from one on, and the chain ends before it. -/
theorem Allocated.removeChain {l₁ l₂ : List ℕ} (h : Allocated g chains fs)
    (hi : chains i = l₁ ++ c :: l₂) :
    ∃ fs',fs.removeChain g c (l₁.getLast?.getD 0) = some (.ok,fs') ∧
      Allocated g (Function.update chains i l₁) fs' ∧ Untouched g fs fs' ∧
      g.free fs'.view = g.free fs.view ∪ (c :: l₂).toFinset := by
  have hc : c ∈ chains i := hi ▸ List.mem_append_right _ List.mem_cons_self
  obtain ⟨hlo,hhi⟩ := h.all.valid hc
  have hlen := h.length_le i
  rw [hi,List.length_append,List.length_cons] at hlen
  obtain ⟨fs₁,hrun,hsplit,huntouched₁,hset₁⟩ := h.endBefore hi
  have hfuel : l₂.length < g.nFatent := by omega
  obtain ⟨fs',hloop,halloc,huntouched,hset⟩ := hsplit.freeFrom (i := none) rfl hfuel
  have hback := halloc.all.some
  refine ⟨fs',hrun.trans hloop,⟨halloc.coherent,hback,fun d hlo' hhi' hne => ?_,halloc.counted⟩,
    huntouched₁.trans huntouched,by rw [hset,hset₁]⟩
  obtain ⟨j,hj⟩ := halloc.used d hlo' hhi' hne
  cases j with
  | none => exact absurd hj (by simp)
  | some j => exact ⟨j,hj⟩

end Allocated

/-! ### A small volume -/

section Tiny

/-- A FAT12 volume with two clusters. -/
def tiny : Geometry where
  fsType := .fat12
  nFats := 1
  csizeLog := 0
  nFatent := 4
  fsize := 1
  fatbase := 1
  database := 3
  fatsOk := Or.inl rfl
  entriesOk := by decide
  fsizeOk := by decide
  fatsFit := by decide
  dataFits := by decide

/-- Its disk: the first cluster is the file that the first entry of the root directory leads to. -/
def tinyDisk : Mem := fun a =>
  if a = 515 then 0xFF else if a = 516 then 0x0F
  else if a = 1035 then 0x20 else if a = 1050 then 2 else if a = 1052 then 3
  else if a = 1536 then 97 else if a = 1537 then 98 else if a = 1538 then 99
  else 0

def tinyFs : FATFS := ⟨false,0x80,0xFFFFFFFF,0xFFFFFFFF,0,tinyDisk,tinyDisk⟩

def tinyChains : Unit ⊕ Empty → List ℕ
  | .inl _ => [2]
  | .inr k => k.elim

theorem tinyFs_coherent : tinyFs.Coherent := by
  refine ⟨by decide,fun _ i _ => ?_⟩
  have hplace : tinyFs.winsect * SS + i = i := by
    rw [show tinyFs.winsect = 0 from rfl,Nat.zero_mul,Nat.zero_add]
  rw [hplace]
  exact congrFun (show tinyFs.win = tinyFs.disk from rfl) i

theorem tiny_entry : tiny.entry tinyFs.view 2 = 0xFFF ∧ tiny.entry tinyFs.view 3 = 0 := by decide

theorem tiny_free : (tiny.free tinyFs.view).card = 1 := by decide

theorem tiny_allocated : Allocated tiny tinyChains tinyFs := by
  refine ⟨tinyFs_coherent,⟨fun i => ?_,@fun i c hc => ?_,@fun i j _ _ _ => ?_⟩,fun c hlo hhi hne => ?_,
    fun hknown => absurd hknown (by decide)⟩
  · rcases i with _ | k
    · show tiny.nFatent ≤ tiny.entry tinyFs.view 2
      rw [tiny_entry.1]
      decide
    · exact k.elim
  · rcases i with _ | k
    · rw [List.mem_singleton.mp hc]
      decide
    · exact k.elim
  · rcases i with _ | k
    · rcases j with _ | k
      · rfl
      · exact k.elim
    · exact k.elim
  · have hc : c < 4 := hhi
    obtain rfl | rfl : c = 2 ∨ c = 3 := by omega
    · exact ⟨.inl (),List.mem_singleton_self 2⟩
    · exact absurd tiny_entry.2 hne

end Tiny

/-! ### The FAT as a table -/

/-- An access to the FAT; the result is an entry or whether it was put. -/
inductive FatCall
  | get (clst : ℕ)
  | put (clst val : ℕ)

namespace FatCall

variable (g : Geometry)

def exec : FatCall → FATFS → (ℕ ⊕ FResult) × FATFS
  | get clst,fs =>
    let (val,fs) := fs.getFat g clst
    (.inl val,fs)
  | put clst val,fs =>
    let (res,fs) := fs.putFat g clst val
    (.inr res,fs)

/-- The access to a table of numbers that have as many bits as an entry. -/
def step : FatCall → (ℕ → ℕ) → (ℕ ⊕ FResult) × (ℕ → ℕ)
  | get clst,t => (.inl (if 2 ≤ clst ∧ clst < g.nFatent then t clst else 1),t)
  | put clst val,t =>
    if 2 ≤ clst ∧ clst < g.nFatent then (.inr .ok,Function.update t clst (val % 2 ^ g.fsType.bits))
    else (.inr .intErr,t)

/-- The answers to some accesses, one after the other. -/
def answers {σ : Type} (f : FatCall → σ → (ℕ ⊕ FResult) × σ) : List FatCall → σ → List (ℕ ⊕ FResult)
  | [],_ => []
  | call :: calls,s => (f call s).1 :: answers f calls (f call s).2

variable {g} {fs : FATFS} {t : ℕ → ℕ}

theorem exec_step (hfs : fs.Coherent) (ht : ∀ c < g.nFatent,g.entry fs.view c = t c) (call : FatCall) :
    (call.exec g fs).1 = (call.step g t).1 ∧ (call.exec g fs).2.Coherent ∧
      ∀ c < g.nFatent,g.entry (call.exec g fs).2.view c = (call.step g t).2 c := by
  cases call with
  | get clst =>
    by_cases hvalid : 2 ≤ clst ∧ clst < g.nFatent
    · obtain ⟨fs',hget,hkept,_⟩ := getFat_spec hfs hvalid.1 hvalid.2
      simp only [exec,step,hget,if_pos hvalid,ht clst hvalid.2]
      exact ⟨trivial,hkept.coherent,fun c hc => (hkept.entry hc).trans (ht c hc)⟩
    · have hbad : clst < 2 ∨ clst ≥ g.nFatent := by omega
      simp only [exec,step,FATFS.getFat,if_pos hbad,if_neg hvalid]
      exact ⟨trivial,hfs,ht⟩
  | put clst val =>
    by_cases hvalid : 2 ≤ clst ∧ clst < g.nFatent
    · obtain ⟨fs',hput,hshows,_⟩ := putFat_spec hfs hvalid.1 hvalid.2 val
      simp only [exec,step,hput,if_pos hvalid]
      refine ⟨trivial,hshows.coherent,fun c hc => ?_⟩
      rw [hshows.entry_put hc,Function.update_apply,ht c hc]
    · simp only [exec,step,FATFS.putFat,if_neg hvalid]
      exact ⟨trivial,hfs,ht⟩

/-- Whatever the width of the entries, and wherever the window is: the FAT is a table of numbers. -/
theorem fat_table (hfs : fs.Coherent) (calls : List FatCall) :
    answers (exec g) calls fs = answers (step g) calls (g.entry fs.view) := by
  suffices hgen : ∀ t,(∀ c < g.nFatent,g.entry fs.view c = t c) →
      answers (exec g) calls fs = answers (step g) calls t from hgen _ fun _ _ => rfl
  induction calls generalizing fs with
  | nil => exact fun _ _ => rfl
  | cons call calls ih =>
    intro t ht
    obtain ⟨hanswer,hcoherent,hentry⟩ := exec_step hfs ht call
    rw [answers,answers,hanswer,ih hcoherent _ hentry]

/-- Two entries of 12 bits that share a byte. -/
theorem fat_table_tiny : answers (exec tiny) [.put 2 0xABC,.put 3 0x1DEF,.get 2,.get 3,.get 4] tinyFs =
    answers (step tiny) [.put 2 0xABC,.put 3 0x1DEF,.get 2,.get 3,.get 4] (tiny.entry tinyFs.view) :=
  fat_table tinyFs_coherent _

end FatCall

/-! ### Runs -/

/-- The calls that the file functions make for a file: to get one more cluster, and to free its
clusters from one on. -/
inductive ChainCall (ι : Type)
  | extend (i : ι)
  | cut (i : ι) (k : ℕ)

section Runs

variable {ι : Type} [DecidableEq ι] (g : Geometry)

/-- A call, with what the file functions make of the chains; there is no result after an error. -/
def ChainCall.exec : ChainCall ι → (ι → List ℕ) × FATFS → Option ((ι → List ℕ) × FATFS)
  | extend i,(chains,fs) =>
    match fs.createChain g ((chains i).getLast?.getD 0) with
    | some (ret,fs) =>
      if ret = 0 then some (chains,fs)
      else if ret = 1 ∨ ret = 0xFFFFFFFF then none
      else some (Function.update chains i (chains i ++ [ret]),fs)
    | none => none
  | cut i k,(chains,fs) =>
    match (chains i)[k]? with
    | some c =>
      match fs.removeChain g c (((chains i).take k).getLast?.getD 0) with
      | some (.ok,fs) => some (Function.update chains i ((chains i).take k),fs)
      | _ => none
    | none => some (chains,fs)

variable {g} {chains : ι → List ℕ} {fs : FATFS}

theorem Allocated.exec (h : Allocated g chains fs) (call : ChainCall ι) :
    ∃ chains' fs',call.exec g (chains,fs) = some (chains',fs') ∧ Allocated g chains' fs' ∧
      Untouched g fs fs' := by
  cases call with
  | extend i =>
    obtain ⟨ret,fs',hcall,huntouched,⟨hfree,halloc,_⟩ | ⟨rfl,_,halloc,_⟩⟩ := h.createChain i
    · have hvalid := (mem_free.mp hfree).1
      obtain ⟨_,_,hsmall⟩ := entries_bound g
      refine ⟨_,fs',?_,halloc,huntouched⟩
      simp only [ChainCall.exec,hcall]
      rw [if_neg (by omega),if_neg (by omega)]
    · refine ⟨chains,fs',?_,halloc,huntouched⟩
      simp only [ChainCall.exec,hcall,if_true]
  | cut i k =>
    cases hc : (chains i)[k]? with
    | none => exact ⟨chains,fs,by simp only [ChainCall.exec,hc],h,.refl fs⟩
    | some c =>
      obtain ⟨hk,hget⟩ := List.getElem?_eq_some_iff.mp hc
      have hi : chains i = (chains i).take k ++ c :: (chains i).drop (k + 1) := by
        rw [← hget,List.getElem_cons_drop,List.take_append_drop]
      obtain ⟨fs',hcall,halloc,huntouched,_⟩ := h.removeChain hi
      exact ⟨_,fs',by simp only [ChainCall.exec,hc,hcall],halloc,huntouched⟩

theorem Allocated.run (h : Allocated g chains fs) (calls : List (ChainCall ι)) :
    ∃ chains' fs',calls.foldlM (fun s call => call.exec g s) (chains,fs) = some (chains',fs') ∧
      Allocated g chains' fs' ∧ Untouched g fs fs' := by
  induction calls generalizing chains fs with
  | nil => exact ⟨chains,fs,rfl,h,.refl fs⟩
  | cons call calls ih =>
    obtain ⟨chains₁,fs₁,hexec,halloc₁,huntouched₁⟩ := h.exec call
    obtain ⟨chains',fs',hrun,halloc,huntouched⟩ := ih halloc₁
    refine ⟨chains',fs',?_,halloc,huntouched₁.trans huntouched⟩
    rw [List.foldlM_cons,hexec]
    exact hrun

/-- The disk is full when `create_chain` says so. -/
theorem Allocated.full (h : Allocated g chains fs) {i : ι} {fs' : FATFS}
    (hcall : fs.createChain g ((chains i).getLast?.getD 0) = some (0,fs')) : g.free fs.view = ∅ := by
  obtain ⟨ret,_,hret,_,⟨hfree,_⟩ | ⟨_,hempty,_⟩⟩ := h.createChain i
  · have hzero : ret = 0 := congrArg Prod.fst (Option.some.inj (hret.symm.trans hcall))
    have hlo := (mem_free.mp hfree).1.1
    omega
  · exact hempty

/-- In every run of these calls there is no error, no two files come to share a cluster, no cluster
is lost, a count that is known stays known and right, nothing outside the FAT changes, and a call that
finds no cluster is made when there is none. -/
theorem Allocated.chain_calls (h : Allocated g chains fs) (calls : List (ChainCall ι)) :
    ∃ chains' fs',calls.foldlM (fun s call => call.exec g s) (chains,fs) = some (chains',fs') ∧
      Allocated g chains' fs' ∧ Untouched g fs fs' ∧
      (fs.freeClst ≤ g.nFatent - 2 → fs'.freeClst = (g.free fs'.view).card) ∧
      ∀ before i,before ++ [.extend i] <+: calls → ∀ chains₁ fs₁ fs₂,
        before.foldlM (fun s call => call.exec g s) (chains,fs) = some (chains₁,fs₁) →
        fs₁.createChain g ((chains₁ i).getLast?.getD 0) = some (0,fs₂) → g.free fs₁.view = ∅ := by
  obtain ⟨chains',fs',hrun,halloc,huntouched⟩ := h.run calls
  refine ⟨chains',fs',hrun,halloc,huntouched,fun hknown => halloc.counted (huntouched.known hknown),?_⟩
  intro before i _ chains₁ fs₁ fs₂ hbefore hcall
  obtain ⟨_,_,hrun₁,halloc₁,_⟩ := h.run before
  obtain ⟨rfl,rfl⟩ := Prod.mk.inj (Option.some.inj (hbefore.symm.trans hrun₁))
  exact halloc₁.full hcall

/-- The small volume with its count: one cluster is free. -/
def tinyCounted : FATFS := tinyFs.account 2 1 0x80

theorem tiny_counted : Allocated tiny tinyChains tinyCounted :=
  tiny_allocated.account fun _ => tiny_free.symm

/-- The free cluster is taken, there is no other, and both are given back. -/
theorem Allocated.chain_calls_tiny : ∃ chains' fs',
    [ChainCall.extend (.inl ()),.extend (.inl ()),.cut (.inl ()) 0].foldlM
      (fun s call => call.exec tiny s) (tinyChains,tinyCounted) = some (chains',fs') ∧
    Allocated tiny chains' fs' ∧ Untouched tiny tinyCounted fs' ∧
    fs'.freeClst = (tiny.free fs'.view).card ∧
    ∀ chains₁ fs₁ fs₂,(ChainCall.extend (.inl ())).exec tiny (tinyChains,tinyCounted) =
        some (chains₁,fs₁) →
      fs₁.createChain tiny ((chains₁ (.inl ())).getLast?.getD 0) = some (0,fs₂) →
      tiny.free fs₁.view = ∅ := by
  obtain ⟨chains',fs',hrun,halloc,huntouched,hcount,hfull⟩ := Allocated.chain_calls tiny_counted
    [.extend (.inl ()),.extend (.inl ()),.cut (.inl ()) 0]
  refine ⟨chains',fs',hrun,halloc,huntouched,hcount (by decide),fun chains₁ fs₁ fs₂ hcall => ?_⟩
  refine hfull [.extend (.inl ())] (.inl ()) ⟨[.cut (.inl ()) 0],rfl⟩ chains₁ fs₁ fs₂ ?_
  rw [List.foldlM_cons,hcall]
  rfl

end Runs

end UcVfs.Fatfs
