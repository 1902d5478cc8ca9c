import UcVfs.Fatfs.FileData

/-!
# Reading a file

`f_read` gives the bytes of the file from the pointer on, however they lie in the clusters and
whether they are on the disk or in the buffer, and changes nothing that is shown.
-/

namespace UcVfs.Fatfs

open Framework

section Read

variable {ι : Type} [DecidableEq ι] {g : Geometry} {chains : ι → List ℕ} {i : ι} {cs : List ℕ}
  {n : ℕ} {fp : Fil Mem} {fs : FATFS}

/-- The cluster before a position inside of a cluster is the one of the position. -/
theorem before_div {bcs o : ℕ} (ho : 0 < o) (hin : o % bcs ≠ 0) : (o - 1) / bcs = o / bcs := by
  obtain ⟨o,rfl⟩ := Nat.exists_eq_add_of_lt ho
  rw [Nat.zero_add] at hin ⊢
  rw [Nat.add_sub_cancel,Nat.succ_div,if_neg fun hd => hin (Nat.mod_eq_zero_of_dvd hd),Nat.add_zero]

/-- On the boundary of a cluster it is the one before. -/
theorem boundary_div {bcs o : ℕ} (ho : 0 < o) (hin : o % bcs = 0) :
    o / bcs = (o - 1) / bcs + 1 := by
  obtain ⟨o,rfl⟩ := Nat.exists_eq_add_of_lt ho
  rw [Nat.zero_add] at hin ⊢
  rw [Nat.add_sub_cancel,Nat.succ_div,if_pos (Nat.dvd_of_mod_eq_zero hin)]

/-- A position on the boundary of a sector but of no cluster. -/
theorem csect_zero {o : ℕ} (haligned : o % SS = 0) : o % g.bcs / SS = 0 ↔ o % g.bcs = 0 := by
  have hmod : o % g.bcs % SS = 0 := by
    rw [Geometry.bcs,Nat.mod_mod_of_dvd _ (Nat.dvd_mul_left _ _),haligned]
  have hdiv := Nat.div_add_mod (o % g.bcs) SS
  constructor
  · intro hzero
    rw [hzero,hmod,Nat.mul_zero] at hdiv
    exact hdiv.symm
  · intro hzero
    rw [hzero,Nat.zero_div]

/-- Inside of a cluster the file object has the cluster of the pointer. -/
theorem Opened.clust_mid (h : Opened g chains i cs n fp fs) (hmid : fp.fptr % g.bcs ≠ 0) :
    cs[fp.fptr / g.bcs]? = some fp.clust := by
  have hpos : 0 < fp.fptr := by
    refine Nat.pos_of_ne_zero fun hz => hmid ?_
    rw [hz,Nat.zero_mod]
  have hclust := h.clust hpos
  rwa [before_div hpos hmid] at hclust

/-- Inside of a sector the pointer is inside of a cluster. -/
theorem mid_cluster {o : ℕ} (hmid : o % SS ≠ 0) : o % g.bcs ≠ 0 := by
  intro hz
  apply hmid
  rw [← Nat.mod_mod_of_dvd o (Nat.dvd_mul_left SS g.csize)]
  show o % g.bcs % SS = 0
  rw [hz,Nat.zero_mod]

/-- The read goes on in the cluster of the pointer. -/
theorem Opened.readCluster (h : Opened g chains i cs n fp fs) (haligned : fp.fptr % SS = 0)
    (hmore : fp.fptr < fp.objsize) :
    ∃ clust fs',FATFS.readCluster g fp fs = (.ok (),{ fp with clust := clust },fs') ∧
      cs[fp.fptr / g.bcs]? = some clust ∧ Looked g fs fs' := by
  obtain ⟨c,hc,hat⟩ := cluster_at (hmore.trans_le h.covered)
  have hvalid := h.holds.valid hc
  obtain ⟨_,_,hsmall⟩ := entries_bound g
  rw [FATFS.readCluster,FATFS.csect,csect_eq]
  by_cases hboundary : fp.fptr % g.bcs / SS = 0
  · have hmod := (csect_zero haligned).mp hboundary
    obtain ⟨fs',hnext,hlooked⟩ : ∃ fs',
        (if fp.fptr = 0 then (fp.sclust,fs) else fs.getFat g fp.clust) = (c,fs') ∧
        Looked g fs fs' := by
      by_cases htop : fp.fptr = 0
      · rw [htop,Nat.zero_div] at hat
        rw [if_pos htop,h.sclust,List.head?_eq_getElem?,hat]
        exact ⟨fs,rfl,.refl h.holds.alloc.coherent⟩
      · have hpos : 0 < fp.fptr := Nat.pos_of_ne_zero htop
        have hprev := h.clust hpos
        rw [boundary_div hpos hmod] at hat
        obtain ⟨fs',hget,hlooked⟩ := h.holds.getFat hprev hat
        exact ⟨fs',(if_neg htop).trans hget,hlooked⟩
    rw [if_pos hboundary,hnext]
    dsimp only
    rw [if_neg (by omega),if_neg (by omega)]
    exact ⟨c,fs',rfl,hat,hlooked⟩
  · rw [if_neg hboundary]
    have hmid : fp.fptr % g.bcs ≠ 0 := fun hz => hboundary ((csect_zero haligned).mpr hz)
    exact ⟨fp.clust,fs,rfl,h.clust_mid hmid,.refl h.holds.alloc.coherent⟩

/-- A few bytes behind a position in the same cluster. -/
theorem within_div {bcs o k : ℕ} (hk : 0 < k) (hin : o % bcs + k ≤ bcs) :
    (o + k - 1) / bcs = o / bcs := by
  have hbcs : 0 < bcs := by omega
  have hsplit : o + k - 1 = bcs * (o / bcs) + (o % bcs + (k - 1)) := by
    have hdiv := Nat.div_add_mod o bcs
    omega
  have hzero : (o % bcs + (k - 1)) / bcs = 0 := Nat.div_eq_of_lt (by omega)
  rw [hsplit,Nat.mul_add_div hbcs,hzero,Nat.add_zero]

/-- The rest of a sector is in the cluster. -/
theorem sector_within {o k : ℕ} (hk : o % SS + k ≤ SS) : o % g.bcs + k ≤ g.bcs := by
  have hdiv := Nat.div_add_mod (o % g.bcs) SS
  have hmod : o % g.bcs % SS = o % SS := by
    rw [Geometry.bcs,Nat.mod_mod_of_dvd _ (Nat.dvd_mul_left _ _)]
  have hle : (o % g.bcs / SS + 1) * SS ≤ g.csize * SS := Nat.mul_le_mul_right SS (csect_lt g o)
  have hbcs : g.bcs = g.csize * SS := rfl
  rw [Nat.succ_mul,Nat.mul_comm] at hle
  rw [← hbcs] at hle
  omega

/-- Whole sectors up to the end of the cluster. -/
theorem sectors_within {o cc : ℕ} (haligned : o % SS = 0) (hfit : o % g.bcs / SS + cc ≤ g.csize) :
    o % g.bcs + SS * cc ≤ g.bcs := by
  have hmod : o % g.bcs % SS = 0 := by
    rw [Geometry.bcs,Nat.mod_mod_of_dvd _ (Nat.dvd_mul_left _ _),haligned]
  have hdiv := Nat.div_add_mod (o % g.bcs) SS
  have hle : SS * (o % g.bcs / SS + cc) ≤ SS * g.csize := Nat.mul_le_mul_left SS hfit
  have hbcs : g.bcs = SS * g.csize := Nat.mul_comm _ _
  rw [Nat.mul_add] at hle
  rw [← hbcs] at hle
  omega

/-- The places in a sector. -/
theorem place_in_sector (cs : List ℕ) {o k : ℕ} (hk : o % SS + k < SS) :
    g.place cs (o + k) = g.place cs o + k ∧ g.place cs (o + k) / SS = g.place cs o / SS := by
  have hwithin : o % g.bcs + (k + 1) ≤ g.bcs := sector_within (by omega)
  have hplace : g.place cs (o + k) = g.place cs o + k := place_add (by omega)
  refine ⟨hplace,?_⟩
  have hdiv := Nat.div_add_mod (g.place cs o) SS
  rw [place_mod] at hdiv
  have hsplit : g.place cs o + k = SS * (g.place cs o / SS) + (o % SS + k) := by omega
  rw [hplace,hsplit,Nat.mul_add_div SS_pos,Nat.div_eq_of_lt hk,Nat.add_zero]

/-- The rest of the sector in the buffer. -/
theorem Buffered.copyOut (h : Buffered g chains i cs n fp fs)
    (hin : fp.fptr < cs.length * g.bcs) (hsect : fp.sect = g.place cs fp.fptr / SS) {btr : ℕ}
    (hbtr : 0 < btr) (pos : ℕ) (rbuff : Mem) :
    ∃ rcnt,FATFS.copyOut btr pos rbuff fp =
        (rcnt,memcpy rbuff pos (g.content cs fp fs) fp.fptr rcnt) ∧
      0 < rcnt ∧ rcnt ≤ btr ∧ fp.fptr % SS + rcnt ≤ SS := by
  have hlt := Nat.mod_lt fp.fptr SS_pos
  obtain ⟨rcnt,hrcnt,hpos,hle,hfit⟩ : ∃ rcnt,
      (if SS - fp.fptr % SS > btr then btr else SS - fp.fptr % SS) = rcnt ∧ 0 < rcnt ∧ rcnt ≤ btr ∧
        fp.fptr % SS + rcnt ≤ SS := by
    by_cases hclip : SS - fp.fptr % SS > btr
    · exact ⟨btr,if_pos hclip,hbtr,le_rfl,by omega⟩
    · exact ⟨SS - fp.fptr % SS,if_neg hclip,by omega,by omega,by omega⟩
  refine ⟨rcnt,?_,hpos,hle,hfit⟩
  rw [FATFS.copyOut]
  simp only [hrcnt]
  refine congrArg _ (memcpy_congr fun j hj => ?_)
  obtain ⟨hplace,hdiv⟩ := place_in_sector (g := g) cs (o := fp.fptr) (k := j) (by omega)
  have hmod : g.place cs (fp.fptr + j) % SS = fp.fptr % SS + j := by
    rw [place_mod,Nat.add_mod,Nat.mod_eq_of_lt (a := j) (by omega),Nat.mod_eq_of_lt (by omega)]
  rw [Geometry.content,h.buf_eq (hdiv.trans hsect.symm) (hsect ▸ sectors_place hin),hmod]

/-- Whole sectors of the file, read past the buffer: what is newer in it is put in afterwards. -/
theorem Buffered.readSectors (h : Buffered g chains i cs n fp fs)
    (hin : fp.fptr < cs.length * g.bcs) (haligned : fp.fptr % SS = 0) {sect cc : ℕ} (hcc : 0 < cc)
    (hsect : sect = g.place cs fp.fptr / SS) (hfit : fp.fptr % g.bcs / SS + cc ≤ g.csize)
    (pos : ℕ) (rbuff buff : Mem) :
    ∃ data,fs.read buff sect cc = (.ok,data) ∧
      (if AnyFlag fp.flag FA_DIRTY ∧ sect ≤ fp.sect ∧ fp.sect - sect < cc then
          memcpy (memcpy rbuff pos data 0 (cc * SS)) (pos + (fp.sect - sect) * SS) fp.buf 0 SS
        else memcpy rbuff pos data 0 (cc * SS)) =
        memcpy rbuff pos (g.content cs fp fs) fp.fptr (cc * SS) := by
  obtain ⟨c,hc,hat⟩ := cluster_at hin
  have hsects : ∀ k < cc,g.Sectors cs (sect + k) := by
    intro k hk
    exact ⟨c,hc,fp.fptr % g.bcs / SS + k,by omega,by rw [hsect,place_div hat,Nat.add_assoc]⟩
  obtain ⟨data,hread,hdata⟩ := h.holds.read hcc hsects buff
  refine ⟨data,hread,?_⟩
  have hplace : g.place cs fp.fptr = sect * SS := by
    have hdiv := Nat.div_add_mod (g.place cs fp.fptr) SS
    rw [place_mod,haligned,← hsect] at hdiv
    rw [← hdiv,Nat.add_zero,Nat.mul_comm]
  have hcontent : ∀ j < cc * SS,g.content cs fp fs (fp.fptr + j) = fp.shown fs.view (sect * SS + j) := by
    intro j hj
    have hroom := sectors_within haligned hfit
    rw [Nat.mul_comm] at hj
    have hroom : fp.fptr % g.bcs + j < g.bcs := by omega
    rw [Geometry.content,place_add hroom,hplace]
  funext a
  by_cases ha : pos ≤ a ∧ a < pos + cc * SS
  · obtain ⟨j,rfl⟩ := Nat.exists_eq_add_of_le ha.1
    have hj : j < cc * SS := by omega
    have hdiv : (sect * SS + j) / SS = sect + j / SS := by
      rw [Nat.mul_comm,Nat.mul_add_div SS_pos]
    rw [memcpy_inside hj,hcontent j hj,Fil.shown,hdiv,Nat.mul_add_mod',← hdata j hj]
    by_cases hnew : AnyFlag fp.flag FA_DIRTY ∧ sect + j / SS = fp.sect
    · -- this sector is in the buffer
      have hk : fp.sect - sect = j / SS := by rw [← hnew.2,Nat.add_sub_cancel_left]
      have hle : sect ≤ fp.sect := hnew.2 ▸ Nat.le_add_right _ _
      have hlt : j / SS < cc := Nat.div_lt_of_lt_mul (by rwa [Nat.mul_comm])
      have hsplit : pos + j = pos + j / SS * SS + j % SS := by
        have hj' := Nat.div_add_mod j SS
        rw [Nat.mul_comm] at hj'
        omega
      rw [if_pos hnew,if_pos ⟨hnew.1,hle,hk ▸ hlt⟩,hk,hsplit,
        memcpy_inside (Nat.mod_lt _ SS_pos),Nat.zero_add]
    · rw [if_neg hnew]
      by_cases hover : AnyFlag fp.flag FA_DIRTY ∧ sect ≤ fp.sect ∧ fp.sect - sect < cc
      · have hne : fp.sect - sect ≠ j / SS := fun he => hnew ⟨hover.1,by omega⟩
        rw [if_pos hover,memcpy_outside ?_,memcpy_inside hj,Nat.zero_add]
        by_contra hin'
        apply hne
        exact ((Nat.div_eq_iff SS_pos).mpr (by omega)).symm
      · rw [if_neg hover,memcpy_inside hj,Nat.zero_add]
  · rw [memcpy_outside (by omega)]
    by_cases hover : AnyFlag fp.flag FA_DIRTY ∧ sect ≤ fp.sect ∧ fp.sect - sect < cc
    · have hle : (fp.sect - sect + 1) * SS ≤ cc * SS := Nat.mul_le_mul_right SS hover.2.2
      rw [Nat.succ_mul] at hle
      rw [if_pos hover,memcpy_outside (by omega),memcpy_outside (by omega)]
    · rw [if_neg hover,memcpy_outside (by omega)]

theorem shown_congr (fp : Fil Mem) {m m' : Mem} {a : ℕ} (h : m' a = m a) : fp.shown m' a = fp.shown m a := by
  rw [Fil.shown,Fil.shown,h]

/-- The file object after some bytes were transferred in one cluster. -/
theorem Buffered.advance (h : Buffered g chains i cs n fp fs) (herr : fp.err = .ok)
    (hsclust : fp.sclust = cs.head?.getD 0)
    (hclust : cs[fp.fptr / g.bcs]? = some fp.clust) {k objsize : ℕ} (hk : 0 < k)
    (hin : fp.fptr % g.bcs + k ≤ g.bcs) (hle : fp.fptr + k ≤ objsize)
    (hcovered : objsize ≤ cs.length * g.bcs)
    (hloaded : (fp.fptr + k) % SS ≠ 0 → fp.sect = g.place cs (fp.fptr + k) / SS) :
    Opened g chains i cs n { fp with fptr := fp.fptr + k, objsize := objsize } fs :=
  ⟨⟨h.holds,h.sect,h.copy⟩,herr,hsclust,hle,hcovered,fun _ => (within_div hk hin).symm ▸ hclust,hloaded⟩

theorem sector_end {o k : ℕ} (hk : o % SS + k ≤ SS) (hmod : (o + k) % SS ≠ 0) : o % SS + k < SS := by
  refine lt_of_le_of_ne hk fun he => hmod ?_
  have hdiv := Nat.div_add_mod o SS
  have hsplit : o + k = SS * (o / SS) + SS := by omega
  rw [hsplit,Nat.mul_add_mod,Nat.mod_self]

/-- As many sectors as there are in the cluster. -/
theorem clip_sectors {o cnt : ℕ} (hmany : cnt / SS > 0) :
    ∃ cc,(if o % g.bcs / SS + cnt / SS > g.csize then g.csize - o % g.bcs / SS else cnt / SS) = cc ∧
      0 < cc ∧ o % g.bcs / SS + cc ≤ g.csize ∧ cc ≤ cnt / SS := by
  have hcsect := csect_lt g o
  by_cases hover : o % g.bcs / SS + cnt / SS > g.csize
  · exact ⟨_,if_pos hover,by omega,by omega,by omega⟩
  · exact ⟨_,if_neg hover,hmany,by omega,le_rfl⟩

/-- The rest of a cluster is in the chain. -/
theorem cluster_end {o k : ℕ} (ho : o < cs.length * g.bcs) (hk : o % g.bcs + k ≤ g.bcs) :
    o + k ≤ cs.length * g.bcs := by
  have hdiv := Nat.div_add_mod o g.bcs
  have hcluster : (o / g.bcs + 1) * g.bcs ≤ cs.length * g.bcs :=
    Nat.mul_le_mul_right _ (Nat.div_lt_of_lt_mul (by rwa [Nat.mul_comm]))
  rw [Nat.succ_mul,Nat.mul_comm] at hcluster
  omega

/-- What a round of the loop of `f_read` does: it gives the next bytes of the file. -/
structure ReadRound (g : Geometry) (chains : ι → List ℕ) (i : ι) (cs : List ℕ) (n btr pos : ℕ)
    (rbuff : Mem) (fp : Fil Mem) (fs : FATFS) (rcnt : ℕ) (rbuff' : Mem) (fp' : Fil Mem)
    (fs' : FATFS) : Prop where
  some : 0 < rcnt
  most : rcnt ≤ btr
  bytes : rbuff' = memcpy rbuff pos (g.content cs fp fs) fp.fptr rcnt
  fptr : fp'.fptr = fp.fptr
  objsize : fp'.objsize = fp.objsize
  mode : mode fp'.flag = mode fp.flag
  dirty : AnyFlag fp'.flag FA_DIRTY → AnyFlag fp.flag FA_DIRTY
  opened : Opened g chains i cs n { fp' with fptr := fp'.fptr + rcnt } fs'
  content : ∀ o < cs.length * g.bcs,g.content cs fp' fs' o = g.content cs fp fs o
  beside : Beside g cs fs fs'
  quiet : fs'.wflag = true → fs.wflag = true

/-- The round ends in the buffer. -/
theorem Opened.copyRound (h : Opened g chains i cs n fp fs) {btr : ℕ} (hbtr : 0 < btr)
    (hle : fp.fptr + btr ≤ fp.objsize) (pos : ℕ) (rbuff : Mem) {fp' : Fil Mem} {fs' : FATFS}
    (hbuf : Buffered g chains i cs n fp' fs') (hsect : fp'.sect = g.place cs fp.fptr / SS)
    (hclust : cs[fp.fptr / g.bcs]? = some fp'.clust) (hfptr : fp'.fptr = fp.fptr)
    (hobjsize : fp'.objsize = fp.objsize) (herr : fp'.err = fp.err)
    (hsclust : fp'.sclust = fp.sclust) (hmode : Fatfs.mode fp'.flag = Fatfs.mode fp.flag)
    (hdirty : AnyFlag fp'.flag FA_DIRTY → AnyFlag fp.flag FA_DIRTY)
    (hcontent : ∀ o < cs.length * g.bcs,g.content cs fp' fs' o = g.content cs fp fs o)
    (hbeside : Beside g cs fs fs') (hquiet : fs'.wflag = true → fs.wflag = true) :
    ∃ rcnt rbuff',FATFS.copyOut btr pos rbuff fp' = (rcnt,rbuff') ∧
      ReadRound g chains i cs n btr pos rbuff fp fs rcnt rbuff' fp' fs' := by
  have hcovered := h.covered
  have hin : fp'.fptr < cs.length * g.bcs := by omega
  rw [← hfptr] at hsect
  obtain ⟨rcnt,hcopy,hpos,hle',hfit⟩ := hbuf.copyOut hin hsect hbtr pos rbuff
  have hwithin := sector_within (g := g) hfit
  refine ⟨rcnt,_,hcopy,hpos,hle',?_,hfptr,hobjsize,hmode,hdirty,?_,hcontent,hbeside,
    hquiet⟩
  · rw [hfptr]
    exact memcpy_congr fun j hj => hcontent _ (by omega)
  · rw [← hobjsize] at hcovered hle
    rw [← hfptr] at hclust
    refine hbuf.advance (herr.trans h.err) (hsclust.trans h.sclust) hclust hpos hwithin (by omega)
      hcovered fun hmod => ?_
    rw [hsect]
    exact (place_in_sector cs (sector_end hfit hmod)).2.symm

/-- A round of the loop gives the next bytes of the file. -/
theorem Opened.readRound (h : Opened g chains i cs n fp fs) {btr : ℕ} (hbtr : 0 < btr)
    (hle : fp.fptr + btr ≤ fp.objsize) (pos : ℕ) (rbuff : Mem) :
    ∃ rcnt rbuff' fp' fs',FATFS.readRound g btr pos rbuff fp fs = (.ok (rcnt,rbuff'),fp',fs') ∧
      ReadRound g chains i cs n btr pos rbuff fp fs rcnt rbuff' fp' fs' := by
  have hcovered := h.covered
  have hin : fp.fptr < cs.length * g.bcs := by omega
  rw [FATFS.readRound]
  by_cases haligned : fp.fptr % SS = 0
  · obtain ⟨clust,fs₁,hcluster,hat,hlooked⟩ := h.readCluster haligned (by omega)
    obtain ⟨hbuf,hsame⟩ := h.toBuffered.looked hlooked
    have hbuf₁ : Buffered g chains i cs n { fp with clust := clust } fs₁ :=
      ⟨hbuf.holds,hbuf.sect,hbuf.copy⟩
    have hvalid := h.holds.valid (List.mem_of_getElem? hat)
    obtain ⟨hdata,_,hpos⟩ := cluster_sectors hvalid.1 hvalid.2
    have hcontent₁ : ∀ o < cs.length * g.bcs,
        g.content cs { fp with clust := clust } fs₁ o = g.content cs fp fs o := by
      intro o ho
      exact shown_congr fp (hsame _ (sectors_place ho))
    have hsect := place_div hat
    rw [if_pos haligned,hcluster]
    dsimp only
    rw [if_neg (by omega),FATFS.csect]
    dsimp only
    rw [csect_eq,← hsect]
    by_cases hmany : btr / SS > 0
    · obtain ⟨cc,hclip,hcc,hfit,hmost⟩ := clip_sectors (g := g) (o := fp.fptr) hmany
      obtain ⟨data,hread,hbytes⟩ := hbuf₁.readSectors hin haligned hcc rfl hfit pos rbuff
        fun a => rbuff (pos + a)
      have hbytes : _ = memcpy rbuff pos _ fp.fptr (cc * SS) := hbytes
      have hall : SS * cc ≤ btr := (Nat.mul_le_mul_left SS hmost).trans (Nat.mul_div_le _ _)
      rw [if_pos hmany,hclip,hread]
      refine ⟨SS * cc,_,_,fs₁,rfl,⟨Nat.mul_pos SS_pos hcc,hall,?_,rfl,rfl,rfl,id,?_,hcontent₁,
        hlooked.beside cs,hlooked.kept.quiet⟩⟩
      · refine Eq.trans hbytes ?_
        rw [Nat.mul_comm SS]
        refine memcpy_congr fun j hj => hcontent₁ _ ?_
        rw [Nat.mul_comm] at hj
        omega
      · have hends : fp.fptr + SS * cc ≤ fp.objsize := by omega
        refine hbuf₁.advance h.err h.sclust hat (Nat.mul_pos SS_pos hcc) (sectors_within haligned hfit) hends
          hcovered fun hmod => absurd ?_ hmod
        rw [Nat.add_mul_mod_self_left,haligned]
    · rw [if_neg hmany]
      obtain ⟨flag,buf,fs₂,hload,hmode,hdirty,hbuf₂,hshown,hbeside,hwflag⟩ :=
        hbuf₁.loadSector (sectors_place hin)
      rw [hload]
      obtain ⟨rcnt,rbuff',hcopy,hround⟩ := h.copyRound hbtr hle pos rbuff hbuf₂ rfl hat rfl rfl rfl
        rfl hmode hdirty (fun o ho => (congrFun hshown _).trans (hcontent₁ o ho))
        ((hlooked.beside cs).trans hbeside List.prefix_rfl)
        fun hd => hlooked.kept.quiet (hwflag ▸ hd)
      exact ⟨rcnt,rbuff',_,fs₂,by rw [← hcopy],hround⟩
  · have hclust := h.clust_mid (mid_cluster haligned)
    obtain ⟨rcnt,rbuff',hcopy,hround⟩ := h.copyRound hbtr hle pos rbuff h.toBuffered
      (h.loaded haligned) hclust rfl rfl rfl rfl rfl id (fun _ _ => rfl) (.refl g cs fs) id
    rw [if_neg haligned,hcopy]
    exact ⟨rcnt,rbuff',fp,fs,rfl,hround⟩

/-- Some bytes of the file were given from the pointer on, and it stands behind them. -/
structure GivesBytes (g : Geometry) (chains : ι → List ℕ) (i : ι) (cs : List ℕ) (n cnt pos : ℕ)
    (rbuff : Mem) (fp : Fil Mem) (fs : FATFS) (rbuff' : Mem) (fp' : Fil Mem) (fs' : FATFS) : Prop where
  bytes : rbuff' = memcpy rbuff pos (g.content cs fp fs) fp.fptr cnt
  fptr : fp'.fptr = fp.fptr + cnt
  objsize : fp'.objsize = fp.objsize
  mode : mode fp'.flag = mode fp.flag
  dirty : AnyFlag fp'.flag FA_DIRTY → AnyFlag fp.flag FA_DIRTY
  opened : Opened g chains i cs n fp' fs'
  content : ∀ o < cs.length * g.bcs,g.content cs fp' fs' o = g.content cs fp fs o
  beside : Beside g cs fs fs'
  quiet : fs'.wflag = true → fs.wflag = true

theorem Opened.readLoop {fuel btr : ℕ} (h : Opened g chains i cs n fp fs) (hfuel : btr ≤ fuel)
    (hle : fp.fptr + btr ≤ fp.objsize) (br : ℕ) (rbuff : Mem) :
    ∃ rbuff' fp' fs',FATFS.readLoop g fuel btr br rbuff fp fs = ((.ok,br + btr,rbuff'),fp',fs') ∧
      GivesBytes g chains i cs n btr br rbuff fp fs rbuff' fp' fs' := by
  induction fuel generalizing btr br rbuff fp fs with
  | zero =>
    obtain rfl : btr = 0 := by omega
    exact ⟨rbuff,fp,fs,rfl,(memcpy_zero ..).symm,rfl,rfl,rfl,id,h,fun _ _ => rfl,.refl g cs fs,id⟩
  | succ fuel ih =>
    rw [FATFS.readLoop]
    by_cases hbtr : btr > 0
    · obtain ⟨rcnt,rbuff₁,fp₁,fs₁,hround,hr⟩ := h.readRound hbtr hle br rbuff
      have hmost := hr.most
      have hsome := hr.some
      have hfptr := hr.fptr
      have hobjsize := hr.objsize
      have hleft : fp₁.fptr + rcnt + (btr - rcnt) ≤ fp₁.objsize := by omega
      obtain ⟨rbuff',fp',fs',hloop,hg⟩ := ih hr.opened (by omega) hleft (br + rcnt) rbuff₁
      have hall : br + rcnt + (btr - rcnt) = br + btr := by omega
      have hfptr' : fp'.fptr = fp₁.fptr + rcnt + (btr - rcnt) := hg.fptr
      rw [if_pos hbtr,hround]
      dsimp only
      rw [hloop,hall]
      refine ⟨rbuff',fp',fs',rfl,?_,by omega,hg.objsize.trans hobjsize,hg.mode.trans hr.mode,
        fun hd => hr.dirty (hg.dirty hd),hg.opened,fun o ho => (hg.content o ho).trans (hr.content o ho),
        hr.beside.trans hg.beside List.prefix_rfl,fun hd => hr.quiet (hg.quiet hd)⟩
      -- one part of the bytes behind the other
      have hcovered := h.covered
      have hsplit : btr = rcnt + (btr - rcnt) := by omega
      rw [hg.bytes,hr.bytes,hsplit,← memcpy_append,Nat.add_sub_cancel_left]
      show memcpy _ (br + rcnt) _ (fp₁.fptr + rcnt) _ = _
      rw [hfptr]
      exact memcpy_congr fun j hj => hr.content _ (by omega)
    · obtain rfl : btr = 0 := by omega
      rw [if_neg hbtr]
      exact ⟨rbuff,fp,fs,rfl,(memcpy_zero ..).symm,rfl,rfl,rfl,id,h,fun _ _ => rfl,.refl g cs fs,id⟩

/-- `f_read` gives the bytes from the pointer on up to the end of the file, and the file and the rest
of the volume stay as they are. -/
theorem Opened.fRead {validate : Fil Mem → FATFS → FResult} (h : Opened g chains i cs n fp fs)
    (hok : (g.volume validate).check fp fs = .ok) (hmode : fp.flag &&& FA_READ ≠ 0) (btr : ℕ)
    (rbuff : Mem) :
    ∃ rbuff' fp' fs',FATFS.fRead g validate btr rbuff fp fs =
        ((.ok,min btr (fp.objsize - fp.fptr),rbuff'),fp',fs') ∧
      GivesBytes g chains i cs n (min btr (fp.objsize - fp.fptr)) 0 rbuff fp fs rbuff' fp' fs' := by
  have hsmall := h.holds.small
  have hwithin := h.within
  have hcovered := h.covered
  have hmore : cs.length * g.bcs ≤ (cs.length + n) * g.bcs :=
    Nat.mul_le_mul_right _ (Nat.le_add_right _ _)
  have hremain : (fp.objsize + 2 ^ 32 - fp.fptr) % 2 ^ 32 = fp.objsize - fp.fptr := by omega
  have hclip : (if btr > fp.objsize - fp.fptr then fp.objsize - fp.fptr else btr) =
      min btr (fp.objsize - fp.fptr) := by
    by_cases hover : btr > fp.objsize - fp.fptr
    · rw [if_pos hover,min_eq_right hover.le]
    · rw [if_neg hover,min_eq_left (not_lt.mp hover)]
  have hle : fp.fptr + min btr (fp.objsize - fp.fptr) ≤ fp.objsize := by omega
  obtain ⟨rbuff',fp',fs',hloop,hg⟩ := h.readLoop le_rfl hle 0 rbuff
  refine ⟨rbuff',fp',fs',?_,hg⟩
  simp only [FATFS.fRead,hok,ne_eq,not_true_eq_false,if_false,if_neg hmode,hremain,hclip,hloop,
    Nat.zero_add]

end Read

end UcVfs.Fatfs
