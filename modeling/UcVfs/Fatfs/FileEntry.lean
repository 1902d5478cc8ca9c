import UcVfs.Fatfs.FileOpen

/-!
# Files in a directory

A closed file is its directory entry and the bytes that this leads to. `f_open` finds the file that
the entry tells of, and does to the directory what it does to one without clusters.
-/

namespace UcVfs.Fatfs

open Framework

/-- The entry at `dir` is on the volume, and so is the data of its chain. -/
structure Filed (g : Geometry) (dir : ℕ) (cs : List ℕ) (m : Mem) (e : DirEntry) : Prop where
  attr : e.attr = (m (dir + 11)).toNat &&& AM_MASK
  sclust : g.ldClust m dir = cs.head?.getD 0
  fileSize : loadLE m (dir + 28) 4 = e.fileSize
  covered : e.fileSize ≤ cs.length * g.bcs
  bytes : ∀ k < e.fileSize,e.chain[k]? = some (m (g.place cs k))

section Filed

variable {g : Geometry} {dir : ℕ} {cs : List ℕ} {m m' : Mem} {e : DirEntry}

theorem Filed.congr (h : Filed g dir cs m e) (hentry : ∀ k < 32,m' (dir + k) = m (dir + k))
    (hdata : ∀ a,g.Sectors cs (a / SS) → m' a = m a) : Filed g dir cs m' e := by
  refine ⟨?_,(ldClust_congr hentry).trans h.sclust,(loadEntry_congr hentry (by decide)).trans h.fileSize,
    h.covered,fun k hk => ?_⟩
  · rw [hentry 11 (by decide)]
    exact h.attr
  · rw [h.bytes k hk,hdata _ (sectors_place (lt_of_lt_of_le hk h.covered))]

end Filed

/-- What a call on a file leaves alone: the bytes outside of its clusters, its directory entry, the
FAT and the FSInfo sector. -/
structure Aside (v : MountedVolume) (d : DirPlace v.toGeometry) (cs : List ℕ) (fs fs' : FATFS) :
    Prop where
  view : ∀ a < nSects * SS,¬v.InFats a → ¬v.Sectors cs (a / SS) →
    (a < d.addr ∨ d.addr + 32 ≤ a) → ¬v.Info (a / SS) → fs'.view a = fs.view a
  mirrored : Mirrored v.toGeometry fs → Mirrored v.toGeometry fs'
  window : fs'.winsect = fs.winsect ∨ v.InFat fs'.winsect ∨ fs'.winsect = d.sect ∨ v.Info fs'.winsect

theorem Beside.aside {v : MountedVolume} {cs : List ℕ} {fs fs' : FATFS}
    (h : Beside v.toGeometry cs fs fs') (d : DirPlace v.toGeometry) : Aside v d cs fs fs' :=
  ⟨fun a ha hfats hno _ _ => h.view a ha hfats hno,h.mirrored,h.window.imp_right Or.inl⟩

section Overwrite

variable {ι : Type} [DecidableEq ι] {v : MountedVolume} {d : DirPlace v.toGeometry}
  {chains : ι → List ℕ} {i : ι} {cs : List ℕ} {n : ℕ} {fs : FATFS}

/-- The entry of a file that is emptied. -/
theorem cleared_entry (g : Geometry) (win : Mem) (dir : ℕ) :
    ∃ win',storeLE (g.stClust (storeLE (storeLE (storeLE win (dir + 14) FATTIME 4) (dir + 22)
        FATTIME 4) (dir + 11) AM_ARC 1) dir 0) (dir + 28) 0 4 = win' ∧
      g.ldClust (storeLE (storeLE win (dir + 14) FATTIME 4) (dir + 22) FATTIME 4) dir =
        g.ldClust win dir ∧
      (win' (dir + 11)).toNat = AM_ARC ∧ g.ldClust win' dir = 0 ∧ loadLE win' (dir + 28) 4 = 0 ∧
      ∀ a,a < dir ∨ dir + 32 ≤ a → win' a = win a := by
  have hpos : 0 < g.nFatent := by
    have hentries := g.entriesOk.1
    omega
  refine ⟨_,rfl,?_,?_,?_,?_,fun a ha => ?_⟩
  · rw [Geometry.ldClust,Geometry.ldClust,loadLE_storeLE_outside (by omega),
      loadLE_storeLE_outside (by omega),loadLE_storeLE_outside (by omega),
      loadLE_storeLE_outside (by omega)]
  · rw [storeLE_outside (by omega),stClust_outside (by omega)]
    have hbyte := @storeLE_inside (storeLE (storeLE win (dir + 14) FATTIME 4) (dir + 22) FATTIME 4)
      (dir + 11) AM_ARC 1 0 Nat.one_pos
    rw [Nat.add_zero] at hbyte
    rw [hbyte]
    decide
  · refine Eq.trans ?_ (ldClust_stClust (storeLE (storeLE (storeLE win (dir + 14) FATTIME 4) (dir + 22)
      FATTIME 4) (dir + 11) AM_ARC 1) dir hpos)
    rw [Geometry.ldClust,Geometry.ldClust,loadLE_storeLE_outside (by omega),
      loadLE_storeLE_outside (by omega)]
  · rw [loadLE_storeLE]
    rfl
  · rw [storeLE_outside (by omega),stClust_outside (by omega),storeLE_outside (by omega),
      storeLE_outside (by omega),storeLE_outside (by omega)]

/-- A file is emptied: its clusters are free, and its entry leads nowhere. -/
theorem Allocated.overwrite (h : Allocated v.toGeometry chains fs) (hat : fs.winsect = d.sect)
    (hsclust : v.ldClust fs.win d.off = (chains i).head?.getD 0) :
    ∃ fs',FATFS.overwrite v.toGeometry d.off fs = some (.ok,fs') ∧
      Allocated v.toGeometry (Function.update chains i []) fs' ∧
      (v.free fs'.view).card = (v.free fs.view).card + (chains i).length ∧ fs'.winsect = d.sect ∧
      (fs'.win (d.off + 11)).toNat = AM_ARC ∧ v.ldClust fs'.win d.off = 0 ∧
      loadLE fs'.win (d.off + 28) 4 = 0 ∧ Aside v d [] fs fs' := by
  obtain ⟨win,hwin,hclust,hattr,hzero,hsize,hother⟩ := cleared_entry v.toGeometry fs.win d.off
  have hview := fs.view_put d.fits hother
  rw [hat] at hview
  have hout : ∀ a,(a < d.addr ∨ d.addr + 32 ≤ a) → (fs.put win).view a = fs.view a := by
    intro a ha
    rw [hview,if_neg]
    rw [DirPlace.addr] at ha
    omega
  obtain ⟨halloc₁,hfree₁⟩ := h.congr (h.coherent.put win)
    (fun a _ hhi => hout a (Or.inl (fat_before d hhi))) (Or.inl rfl)
  -- the entry does not change when the FAT does
  have hentry : ∀ {fs' : FATFS},fs'.winsect = d.sect → (∀ k < 32,fs'.view (d.addr + k) =
      (fs.put win).view (d.addr + k)) → ∀ k < 32,fs'.win (d.off + k) = win (d.off + k) := by
    intro fs' hat' hsame k hk
    rw [d.win_eq hat' hk,hsame k hk]
    exact (d.win_eq (show (fs.put win).winsect = d.sect from hat) hk).symm
  have hkeep : ∀ fs' : FATFS,(∀ k < 32,fs'.win (d.off + k) = win (d.off + k)) →
      (fs'.win (d.off + 11)).toNat = AM_ARC ∧ v.ldClust fs'.win d.off = 0 ∧
      loadLE fs'.win (d.off + 28) 4 = 0 := by
    intro fs' hsame
    exact ⟨by rw [hsame 11 (by decide),hattr],(ldClust_congr hsame).trans hzero,
      (loadEntry_congr hsame (by decide)).trans hsize⟩
  have haside : Aside v d [] fs (fs.put win) :=
    ⟨fun a _ _ _ ha _ => hout a ha,fun hm => hm.putEntry hat win,Or.inl rfl⟩
  simp only [FATFS.overwrite,hclust,hsclust,hwin]
  cases hi : chains i with
  | nil =>
    have hsame : Function.update chains i [] = chains := by
      rw [← hi,Function.update_eq_self]
    rw [List.head?_nil,Option.getD_none,if_neg (not_not.mpr rfl),hsame]
    obtain ⟨hattr',hzero',hsize'⟩ := hkeep (fs.put win) fun _ _ => rfl
    exact ⟨fs.put win,rfl,halloc₁,by rw [hfree₁]; rfl,hat,hattr',hzero',hsize',haside⟩
  | cons c l =>
    have hc : c ∈ chains i := hi ▸ List.mem_cons_self
    have hvalid := h.all.valid hc
    obtain ⟨fs₂,hremove,halloc₂,huntouched,hfree₂⟩ :=
      halloc₁.removeChain (show chains i = [] ++ c :: l from hi)
    have hremove : FATFS.removeChain v.toGeometry c 0 { fs with win := win, wflag := true } =
        some (.ok,fs₂) := hremove
    obtain ⟨fs₃,hmove,hkept,hat₃⟩ :=
      moveWindow_spec (g := v.toGeometry) halloc₂.coherent d.inside
    have hback : FATFS.moveWindow v.toGeometry fs.winsect fs₂ = (.ok,fs₃) := by rw [hat,hmove]
    have hcoherent : (fs₃.account (c - 1) fs₃.freeClst fs₃.fsiFlag).Coherent := hkept.coherent.account
    obtain ⟨halloc₃,hfree₃⟩ := halloc₂.congr hcoherent
      (fun a _ ha => hkept.view a (v.inFat ha).1 (v.inFat ha).2) (Or.inl hkept.freeClst)
    have hne : c ≠ 0 := by omega
    simp only [List.head?_cons,Option.getD_some,if_pos hne,hremove,hback]
    have hafter : ∀ a < nSects * SS,¬v.InFats a → fs₃.view a = (fs.put win).view a := by
      intro a ha hfats
      rw [hkept.view a ha fun hm => hfats hm.inFats,huntouched.view a ha hfats]
    obtain ⟨hattr',hzero',hsize'⟩ := hkeep fs₃ (hentry hat₃ fun k hk =>
      hafter _ (dir_behind d hk).2.1 (dir_behind d hk).2.2.1)
    refine ⟨_,rfl,halloc₃,?_,hat₃,hattr',hzero',hsize',fun a ha hfats _ hentry _ => ?_,
      fun hm => ?_,Or.inr (Or.inr (Or.inl hat₃))⟩
    · -- none of the clusters was free
      have hdisjoint : Disjoint (v.free fs.view) (c :: l).toFinset := by
        refine Finset.disjoint_left.mpr fun b hfree hb => (h.free_iff.mp hfree).2 i ?_
        rw [hi]
        exact List.mem_toFinset.mp hb
      have hnodup : (c :: l).Nodup := hi ▸ h.all.nodup (fun hc => by omega) i
      refine (congrArg Finset.card hfree₃).trans ?_
      rw [hfree₂,hfree₁,Finset.card_union_of_disjoint hdisjoint,List.toFinset_card_of_nodup hnodup]
    · exact (hafter a ha hfats).trans (hout a hentry)
    · have hmirrored := hkept.mirrored (huntouched.mirrored (hm.putEntry hat win))
      exact ⟨hmirrored.pending,hmirrored.copies⟩

end Overwrite

/-! ### Opening -/

/-- The object shows the same file as the file object on the disk. -/
structure Represents {Name : Type} (g : Geometry) (cs : List ℕ) (fp : Fil Mem) (fs : FATFS)
    (o : FilObj Name) : Prop where
  fptr : o.fptr = fp.fptr
  objsize : o.objsize = fp.objsize
  mode : mode o.flag = mode fp.flag
  bytes : ∀ k < fp.objsize,o.buf[k]? = some (g.content cs fp fs k)

/-- A file that `f_open` has found, as it was or emptied. -/
structure Readied {ι : Type} [DecidableEq ι] (v : MountedVolume) (d : DirPlace v.toGeometry)
    (chains : ι → List ℕ) (i : ι) (cs : List ℕ) (e : DirEntry) (fs fs' : FATFS) : Prop where
  alloc : Allocated v.toGeometry (Function.update chains i cs) fs'
  shorter : cs <+: chains i
  room : (v.free fs'.view).card + cs.length = (v.free fs.view).card + (chains i).length
  away : ¬v.Sectors cs fs'.winsect
  filed : Filed v.toGeometry d.addr cs fs'.view e
  aside : Aside v d [] fs fs'

section Open

variable {ι Name : Type} [DecidableEq ι] [DecidableEq Name] {v : MountedVolume}
  {d : DirPlace v.toGeometry} {chains : ι → List ℕ} {i : ι} {fs : FATFS} {dir : RootDir Name}
  {name : Name} {e : DirEntry}

/-- An existing file stays what it is or is emptied, as its directory says. -/
theorem openExisting_spec (h : Allocated v.toGeometry chains fs) (hat : fs.winsect = d.sect)
    (hfiled : Filed v.toGeometry d.addr (chains i) fs.view e) (hdir : dir name = some e)
    (hhome : ¬v.Sectors (chains i) d.sect) (mode : ℕ) :
    ∃ res fs' cs e',FATFS.openExisting v.toGeometry mode d.off fs = some (res,fs') ∧
      createOrOpen name mode dir = (res,mode,Function.update dir name (some e')) ∧
      Readied v d chains i cs e' fs fs' ∧ fs'.winsect = d.sect ∧
      (res = .ok ∧ mode &&& FA_CREATE_ALWAYS ≠ 0 ∨ fs' = fs ∧ cs = chains i) := by
  have hsame : Function.update dir name (some e) = dir := by
    rw [← hdir,Function.update_eq_self]
  have hattr : (fs.win (d.off + 11)).toNat &&& AM_MASK = e.attr := by
    rw [d.win_eq hat (by decide),hfiled.attr]
  have hkept : Readied v d chains i (chains i) e fs fs := by
    refine ⟨by rwa [Function.update_eq_self],List.prefix_rfl,rfl,by rwa [hat],hfiled,?_⟩
    exact ⟨fun _ _ _ _ _ _ => rfl,fun hm => hm,Or.inl rfl⟩
  -- the entry stays as it is
  have hstay : ∀ res : FResult,
      ∃ res' fs' cs e',some (res,fs) = some (res',fs') ∧
        (res,mode,dir) = (res',mode,Function.update dir name (some e')) ∧
        Readied v d chains i cs e' fs fs' ∧ fs'.winsect = d.sect ∧
        (res' = .ok ∧ mode &&& FA_CREATE_ALWAYS ≠ 0 ∨ fs' = fs ∧ cs = chains i) :=
    fun _ => ⟨_,fs,chains i,e,rfl,by rw [hsame],hkept,hat,Or.inr ⟨rfl,rfl⟩⟩
  simp only [FATFS.openExisting,createOrOpen,hdir,hattr]
  by_cases hmake : mode &&& (FA_CREATE_ALWAYS ||| FA_OPEN_ALWAYS ||| FA_CREATE_NEW) ≠ 0
  · simp only [if_pos hmake]
    by_cases hdenied : e.attr &&& (AM_RDO ||| AM_DIR) ≠ 0
    · simp only [if_pos hdenied]
      exact hstay _
    · simp only [if_neg hdenied]
      by_cases hnew : mode &&& FA_CREATE_NEW ≠ 0
      · simp only [if_pos hnew]
        exact hstay _
      · simp only [if_neg hnew]
        by_cases halways : mode &&& FA_CREATE_ALWAYS ≠ 0
        · obtain ⟨fs',hover,halloc,hcard,hat',hattr',hclust,hsize,haside⟩ :=
            h.overwrite hat ((ldClust_congr fun k hk => d.win_eq hat hk).trans hfiled.sclust)
          rw [if_pos ⟨trivial,halways⟩,if_pos ⟨trivial,halways⟩,hover]
          refine ⟨.ok,fs',[],.empty,rfl,rfl,⟨halloc,List.nil_prefix,hcard,fun hsect => ?_,?_,haside⟩,
            hat',Or.inl ⟨rfl,halways⟩⟩
          · obtain ⟨_,hc,_⟩ := hsect
            exact absurd hc List.not_mem_nil
          have hwin : ∀ k < 32,fs'.view (d.addr + k) = fs'.win (d.off + k) := fun k hk =>
            (d.win_eq hat' hk).symm
          refine ⟨?_,(ldClust_congr hwin).trans hclust,(loadEntry_congr hwin (by decide)).trans hsize,
            Nat.zero_le _,fun k hk => absurd hk (Nat.not_lt_zero k)⟩
          rw [hwin 11 (by decide),hattr']
          rfl
        · rw [if_neg fun h => halways h.2,if_neg fun h => halways h.2]
          exact hstay _
  · simp only [if_neg hmake]
    split_ifs
    · exact hstay _
    · exact hstay _
    · exact hstay _

/-- What is done outside of the FAT alone is seen. -/
theorem Filed.same {fs₀ fs' : FATFS} {cs : List ℕ} {n : ℕ} {m : Mem}
    (h : Filed v.toGeometry d.addr cs m e) (hholds : Holds v.toGeometry chains i cs n fs₀)
    (hhome : ¬v.Sectors cs d.sect)
    (hview : ∀ a < nSects * SS,¬v.InFats a → fs'.view a = m a) :
    Filed v.toGeometry d.addr cs fs'.view e := by
  refine h.congr (fun k hk => ?_) fun a ha => ?_
  · obtain ⟨_,hdisk,hfats,_⟩ := dir_behind d hk
    exact hview _ hdisk hfats
  · obtain ⟨hdisk,hfats,_⟩ := hholds.sector_away hhome ha
    exact hview a hdisk hfats

/-- An open file with its entry, which tells of it unless it has changed. -/
structure Live (v : MountedVolume) (d : DirPlace v.toGeometry) (chains : ι → List ℕ) (i : ι)
    (name : Name) (cs : List ℕ) (n : ℕ) (e : DirEntry) (fp : Fil Mem) (fs : FATFS)
    (o : FilObj Name) : Prop extends Opened v.toGeometry chains i cs n fp fs where
  represents : Represents v.toGeometry cs fp fs o
  dirPtr : o.dirPtr = some name
  attr : e.attr = (fs.view (d.addr + 11)).toNat &&& AM_MASK
  filed : ¬AnyFlag fp.flag FA_MODIFIED →
    ¬AnyFlag fp.flag FA_DIRTY ∧ Filed v.toGeometry d.addr cs fs.view e

omit [DecidableEq Name] in
/-- The object of the file that was found. -/
theorem Readied.open {cs : List ℕ} {fs₁ fs₂ : FATFS} (h : Readied v d chains i cs e fs₁ fs₂)
    (hat : fs₂.winsect = d.sect) (mode : ℕ) (fp : Fil Mem) :
    ∃ fp' fs',FATFS.openEntry v.toGeometry mode d.off fp fs₂ = (.ok,fp',fs') ∧ Looked v.toGeometry fs₂ fs' ∧
      fp'.flag = FATFS.openMode mode ∧
      Live v d chains i name cs (v.free fs'.view).card e fp' fs' ⟨some name,FATFS.openMode mode,
        if FATFS.openMode mode &&& FA_SEEKEND ≠ 0 ∧ 0 < e.fileSize then e.fileSize else 0,e.fileSize,
        e.chain⟩ := by
  have hhome : ¬v.Sectors cs d.sect := hat ▸ h.away
  have hholds : Holds v.toGeometry chains i cs (v.free fs₂.view).card fs₂ := ⟨h.alloc,rfl,h.away⟩
  have hwin : ∀ k < 32,fs₂.win (d.off + k) = fs₂.view (d.addr + k) := fun k hk => d.win_eq hat hk
  have hsize : loadLE fs₂.win (d.off + 28) 4 = e.fileSize :=
    (loadEntry_congr hwin (by decide)).trans h.filed.fileSize
  obtain ⟨fp',fs',hopen,hopened,hobjsize,hflag,hfptr,hcontent,hlooked⟩ := hholds.openEntry
    ((ldClust_congr hwin).trans h.filed.sclust) (hsize.trans_le h.filed.covered) mode fp
  have hfiled := h.filed.same hholds hhome fun a ha hfats => hlooked.untouched.view a ha hfats
  rw [hsize] at hobjsize
  refine ⟨fp',fs',hopen,hlooked,hflag,?_⟩
  rw [hlooked.free]
  refine ⟨hopened,⟨?_,hobjsize.symm,congrArg _ hflag.symm,fun k hk => ?_⟩,rfl,hfiled.attr,
    fun _ => ⟨hflag ▸ openMode_dirty mode,hfiled⟩⟩
  · rw [hfptr,hobjsize]
    by_cases hend : FATFS.openMode mode &&& FA_SEEKEND ≠ 0
    · by_cases hpos : 0 < e.fileSize
      · exact (if_pos ⟨hend,hpos⟩).trans (if_pos hend).symm
      · refine (if_neg fun h => hpos h.2).trans (Eq.trans ?_ (if_pos hend).symm)
        omega
    · exact (if_neg fun h => hend h.1).trans (if_neg hend).symm
  · rw [hobjsize] at hk
    rw [hcontent k (hk.trans_le h.filed.covered)]
    exact h.filed.bytes k hk

/-- Reading the FAT changes nothing for the file. -/
theorem Readied.looked {cs : List ℕ} {fs₂ fs' : FATFS} (h : Readied v d chains i cs e fs fs₂)
    (hat : fs₂.winsect = d.sect) (hl : Looked v.toGeometry fs₂ fs') :
    Readied v d chains i cs e fs fs' := by
  have hhome : ¬v.Sectors cs d.sect := hat ▸ h.away
  have hholds : Holds v.toGeometry chains i cs (v.free fs₂.view).card fs₂ := ⟨h.alloc,rfl,h.away⟩
  refine ⟨h.alloc.kept hl,h.shorter,by rw [hl.free]; exact h.room,fun hsect => ?_,
    h.filed.same hholds hhome fun a ha hfats => hl.untouched.view a ha hfats,
    ⟨fun a ha hfats hno hout hinfo => (hl.untouched.view a ha hfats).trans
      (h.aside.view a ha hfats hno hout hinfo),fun hm => hl.kept.mirrored (h.aside.mirrored hm),?_⟩⟩
  · rcases hl.window with hsame | hfat
    · rw [hsame] at hsect
      exact h.away hsect
    · exact data_not_fat (hholds.sectors hsect).1 hfat
  · rcases hl.window with hsame | hfat
    · rw [hsame]
      exact h.aside.window
    · exact Or.inr (Or.inl hfat)

theorem openMode_mask (mode : ℕ) : FATFS.openMode (mode &&& (FA_READ ||| FA_WRITE |||
    FA_CREATE_ALWAYS ||| FA_CREATE_NEW ||| FA_OPEN_ALWAYS ||| FA_OPEN_APPEND)) =
      FATFS.openMode mode := by
  have htwice : ∀ w m : ℕ,w &&& m &&& m = w &&& m := fun w m => by rw [Nat.and_assoc,Nat.and_self]
  simp only [FATFS.openMode,htwice]

/-- `f_open` of the directory, once the file is found. -/
theorem fOpen_found {res : FResult} {e' : DirEntry} {mode : ℕ} (blank : FilObj Name)
    (hcreate : createOrOpen name (mode &&& (FA_READ ||| FA_WRITE ||| FA_CREATE_ALWAYS |||
      FA_CREATE_NEW ||| FA_OPEN_ALWAYS ||| FA_OPEN_APPEND)) dir =
        (res,mode &&& (FA_READ ||| FA_WRITE ||| FA_CREATE_ALWAYS ||| FA_CREATE_NEW |||
          FA_OPEN_ALWAYS ||| FA_OPEN_APPEND),Function.update dir name (some e'))) :
    UcVfs.fOpen blank name mode dir = if res = .ok then
      ((res,⟨some name,FATFS.openMode mode,
        if FATFS.openMode mode &&& FA_SEEKEND ≠ 0 ∧ 0 < e'.fileSize then e'.fileSize else 0,
        e'.fileSize,e'.chain⟩),Function.update dir name (some e'))
      else ((res,blank),Function.update dir name (some e')) := by
  simp only [UcVfs.fOpen,hcreate,Function.update_self,Option.getD_some,FATFS.openMode]
  rfl

/-- `f_open` does to the file and to its directory what it does to a directory without clusters. -/
theorem Filed.fOpen (hfiled : Filed v.toGeometry d.addr (chains i) fs.view e)
    (h : Allocated v.toGeometry chains fs) (hdir : dir name = some e)
    (hhome : ¬v.Sectors (chains i) d.sect) (mode : ℕ) (fp : Fil Mem) (blank : FilObj Name) :
    ∃ res fp' fs' cs e',FATFS.fOpen d mode fp fs = some (res,fp',fs') ∧
      (UcVfs.fOpen blank name mode dir).1.1 = res ∧
      (UcVfs.fOpen blank name mode dir).2 = Function.update dir name (some e') ∧
      Readied v d chains i cs e' fs fs' ∧
      (fs'.wflag = true → fs.wflag = true ∨ res = .ok ∧ AnyFlag fp'.flag FA_MODIFIED) ∧
      (res = .ok → Live v d chains i name cs (v.free fs'.view).card e' fp' fs'
        (UcVfs.fOpen blank name mode dir).1.2) := by
  obtain ⟨fs₁,hmove,hkept,hat⟩ := moveWindow_spec (g := v.toGeometry) h.coherent d.inside
  obtain ⟨halloc,hfree⟩ := h.congr hkept.coherent
    (fun a _ ha => hkept.view a (v.inFat ha).1 (v.inFat ha).2) (Or.inl hkept.freeClst)
  have hholds : Holds v.toGeometry chains i (chains i) (v.free fs₁.view).card fs₁ :=
    ⟨by rwa [Function.update_eq_self],rfl,by rwa [hat]⟩
  have hfiled₁ := hfiled.same hholds hhome fun a ha hfats =>
    hkept.view a ha fun hm => hfats hm.inFats
  obtain ⟨res,fs₂,cs,e',hexisting,hcreate,hready,hat₂,hchange⟩ :=
    openExisting_spec halloc hat hfiled₁ hdir hhome
    (mode &&& (FA_READ ||| FA_WRITE ||| FA_CREATE_ALWAYS ||| FA_CREATE_NEW ||| FA_OPEN_ALWAYS |||
      FA_OPEN_APPEND))
  have haside : Aside v d [] fs fs₂ :=
    ⟨fun a ha hfats hno hout hinfo => (hready.aside.view a ha hfats hno hout hinfo).trans
      (hkept.view a ha fun hm => hfats hm.inFats),
      fun hm => hready.aside.mirrored (hkept.mirrored hm),Or.inr (Or.inr (Or.inl hat₂))⟩
  have hready' : Readied v d chains i cs e' fs fs₂ :=
    ⟨hready.alloc,hready.shorter,by rw [← hfree]; exact hready.room,hready.away,hready.filed,haside⟩
  have hdir' := fOpen_found blank hcreate
  by_cases hres : res = .ok
  · subst hres
    rw [if_pos rfl] at hdir'
    obtain ⟨fp',fs',hopen,hlooked,hflag,hlive⟩ := hready'.open hat₂ (mode &&& (FA_READ ||| FA_WRITE |||
      FA_CREATE_ALWAYS ||| FA_CREATE_NEW ||| FA_OPEN_ALWAYS ||| FA_OPEN_APPEND)) fp
    rw [openMode_mask] at hlive hflag
    refine ⟨.ok,fp',fs',cs,e',?_,by rw [hdir'],by rw [hdir'],hready'.looked hat₂ hlooked,
      fun hdirty => ?_,fun _ => by rw [hdir']; exact hlive⟩
    · simp only [FATFS.fOpen,hmove,hexisting,hopen,if_true]
    · have hdirty₂ := hlooked.kept.quiet hdirty
      rcases hchange with ⟨_,halways⟩ | ⟨rfl,_⟩
      · refine Or.inr ⟨rfl,?_⟩
        rw [hflag,FATFS.openMode]
        exact (congrArg (AnyFlag · FA_MODIFIED) (if_pos halways)).mpr (modified_changed (mode_modified _))
      · exact Or.inl (hkept.quiet hdirty₂)
  · rw [if_neg hres] at hdir'
    refine ⟨res,fp,fs₂,cs,e',?_,by rw [hdir'],by rw [hdir'],hready',fun hdirty => ?_,
      fun hok => absurd hok hres⟩
    · simp only [FATFS.fOpen,hmove,hexisting,if_true]
    · obtain ⟨rfl,_⟩ := hchange.resolve_left fun hc => hres hc.1
      exact Or.inl (hkept.quiet hdirty)

end Open

end UcVfs.Fatfs
