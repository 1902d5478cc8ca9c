import UcVfs.Fatfs.FileRead

/-!
# Writing a file

`f_write` replaces the bytes of the file from the pointer on, up to what the chain can come to hold,
and no other byte of this file or of another one.
-/

namespace UcVfs.Fatfs

open Framework

section Write

variable {ι : Type} [DecidableEq ι] {g : Geometry} {chains : ι → List ℕ} {i : ι} {cs cs' : List ℕ}
  {n n' : ℕ} {fp : Fil Mem} {fs fs' : FATFS} {validate : Fil Mem → FATFS → FResult}

/-- The file has more clusters, in the place of free ones. -/
structure Grown (cs cs' : List ℕ) (n n' : ℕ) : Prop where
  longer : cs <+: cs'
  room : cs'.length + n' = cs.length + n

theorem Grown.refl (cs : List ℕ) (n : ℕ) : Grown cs cs n n := ⟨List.prefix_rfl,rfl⟩

theorem Grown.trans {cs'' : List ℕ} {n'' : ℕ} (h : Grown cs cs' n n') (h' : Grown cs' cs'' n' n'') :
    Grown cs cs'' n n'' :=
  ⟨h.longer.trans h'.longer,h'.room.trans h.room⟩

/-- On a cluster boundary in the chain the write goes to the cluster that is there. -/
theorem Opened.follow (validate : Fil Mem → FATFS → FResult)
    (h : Opened g chains i cs n fp fs) (hmod : fp.fptr % g.bcs = 0) {c : ℕ}
    (hat : cs[fp.fptr / g.bcs]? = some c) :
    ∃ fs',(if fp.fptr = 0 then
        if fp.sclust = 0 then (g.volume validate).createChain 0 fs else (fp.sclust,fs)
      else (g.volume validate).createChain fp.clust fs) = (c,fs') ∧ Looked g fs fs' := by
  have hvalid := h.holds.valid (List.mem_of_getElem? hat)
  by_cases htop : fp.fptr = 0
  · rw [htop,Nat.zero_div] at hat
    have hhead : fp.sclust = c := by rw [h.sclust,List.head?_eq_getElem?,hat,Option.getD_some]
    rw [if_pos htop,hhead,if_neg (by omega)]
    exact ⟨fs,rfl,.refl h.holds.alloc.coherent⟩
  · have hpos : 0 < fp.fptr := Nat.pos_of_ne_zero htop
    have hprev := h.clust hpos
    rw [boundary_div hpos hmod] at hat
    obtain ⟨fs',hcall,hlooked⟩ := h.holds.next hprev hat
    refine ⟨fs',?_,hlooked⟩
    rw [if_neg htop]
    show (fs.createChain g fp.clust).getD (0,fs) = _
    rw [hcall,Option.getD_some]

/-- Behind the chain it goes to what `create_chain` gives for the last cluster. -/
theorem Opened.atEnd (h : Opened g chains i cs n fp fs) (hend : fp.fptr = cs.length * g.bcs) :
    (if fp.fptr = 0 then
        if fp.sclust = 0 then (g.volume validate).createChain 0 fs else (fp.sclust,fs)
      else (g.volume validate).createChain fp.clust fs) =
      (g.volume validate).createChain (cs.getLast?.getD 0) fs := by
  have hbcs := gbcs_pos g
  cases hlen : cs.length with
  | zero =>
    obtain rfl := List.length_eq_zero_iff.mp hlen
    have hnone : fp.sclust = 0 := h.sclust
    rw [hlen,Nat.zero_mul] at hend
    rw [if_pos hend,if_pos hnone]
    rfl
  | succ k =>
    rw [hlen,Nat.succ_mul] at hend
    have hclust := h.clust (by omega)
    have hlast : (fp.fptr - 1) / g.bcs = k := by
      rw [Nat.div_eq_iff hbcs]
      omega
    rw [hlast] at hclust
    rw [if_neg (by omega),List.getLast?_eq_getElem?,hlen,Nat.succ_sub_one,hclust,Option.getD_some]

/-- The write goes on in the cluster of the pointer, which may be a new one, or the disk is full. -/
theorem Opened.writeCluster (validate : Fil Mem → FATFS → FResult)
    (h : Opened g chains i cs n fp fs) (haligned : fp.fptr % SS = 0) :
    (∃ clust sclust cs' n' fs',FATFS.writeCluster g validate fp fs =
        (.ok true,{ fp with clust := clust, sclust := sclust },fs') ∧ Grown cs cs' n n' ∧
      cs'[fp.fptr / g.bcs]? = some clust ∧ sclust = cs'.head?.getD 0 ∧
      Buffered g chains i cs' n' fp fs' ∧ Beside g cs' fs fs' ∧
      ∀ a,g.Sectors cs (a / SS) → fs'.view a = fs.view a) ∨
    (∃ fs',FATFS.writeCluster g validate fp fs = (.ok false,fp,fs') ∧ n = 0 ∧
      fp.fptr = cs.length * g.bcs ∧ Buffered g chains i cs n fp fs' ∧ Beside g cs fs fs' ∧
      ∀ a,g.Sectors cs (a / SS) → fs'.view a = fs.view a) := by
  have hle := h.within.trans h.covered
  obtain ⟨_,_,hsmall⟩ := entries_bound g
  rw [FATFS.writeCluster,FATFS.csect,csect_eq]
  by_cases hboundary : fp.fptr % g.bcs / SS = 0
  · have hmod := (csect_zero haligned).mp hboundary
    rw [if_pos hboundary]
    by_cases hin : fp.fptr < cs.length * g.bcs
    · left
      obtain ⟨c,hc,hat⟩ := cluster_at hin
      have hvalid := h.holds.valid hc
      obtain ⟨fs',hnext,hlooked⟩ := h.follow validate hmod hat
      obtain ⟨hbuf,hsame⟩ := h.toBuffered.looked hlooked
      have hhead : (if fp.sclust = 0 then c else fp.sclust) = cs.head?.getD 0 := by
        rw [h.sclust]
        cases cs with
        | nil => simp at hc
        | cons d l =>
          have hd := (h.holds.valid (List.mem_cons_self (a := d) (l := l))).1
          exact if_neg (by simp; omega)
      rw [hnext]
      dsimp only
      rw [if_neg (by omega),if_neg (by omega),if_neg (by omega)]
      exact ⟨c,_,cs,n,fs',rfl,.refl cs n,hat,hhead,hbuf,hlooked.beside cs,hsame⟩
    · have hend : fp.fptr = cs.length * g.bcs := by omega
      obtain ⟨ret,fs',hcall,huntouched,hres⟩ := h.holds.createChain
      rw [h.atEnd hend,show (g.volume validate).createChain (cs.getLast?.getD 0) fs =
        (fs.createChain g (cs.getLast?.getD 0)).getD (0,fs) from rfl,hcall,Option.getD_some]
      dsimp only
      rcases hres with ⟨hn,hholds⟩ | ⟨rfl,rfl,hholds,_⟩
      · left
        have hle' : cs <+: cs ++ [ret] := List.prefix_append _ _
        obtain ⟨hbuf,hsame⟩ := h.toBuffered.untouched huntouched hle' hholds
        have hvalid := hholds.valid (List.mem_append_right cs (List.mem_singleton_self ret))
        have hgrown : Grown cs (cs ++ [ret]) n (n - 1) :=
          ⟨hle',by rw [List.length_append,List.length_singleton]; omega⟩
        have hat : (cs ++ [ret])[fp.fptr / g.bcs]? = some ret := by
          rw [hend,Nat.mul_div_cancel _ (gbcs_pos g),List.getElem?_concat_length]
        have hhead : (if fp.sclust = 0 then ret else fp.sclust) = (cs ++ [ret]).head?.getD 0 := by
          rw [h.sclust]
          cases cs with
          | nil => rfl
          | cons d l =>
            have hd := (h.holds.valid (List.mem_cons_self (a := d) (l := l))).1
            exact if_neg (by simp; omega)
        rw [if_neg (by omega),if_neg (by omega),if_neg (by omega)]
        exact ⟨ret,_,_,n - 1,fs',rfl,hgrown,hat,hhead,hbuf,huntouched.beside _,hsame⟩
      · right
        obtain ⟨hbuf,hsame⟩ := h.toBuffered.untouched huntouched List.prefix_rfl hholds
        rw [if_pos rfl]
        exact ⟨fs',rfl,rfl,hend,hbuf,huntouched.beside cs,hsame⟩
  · left
    rw [if_neg hboundary]
    have hmid : fp.fptr % g.bcs ≠ 0 := fun hz => hboundary ((csect_zero haligned).mpr hz)
    exact ⟨fp.clust,fp.sclust,cs,n,fs,rfl,.refl cs n,h.clust_mid hmid,h.sclust,h.toBuffered,
      .refl g cs fs,fun _ _ => rfl⟩

theorem anyFlag_dirty (w : ℕ) : AnyFlag (w ||| FA_DIRTY) FA_DIRTY :=
  (anyFlag_lor _ _ _).mpr (Or.inr (by decide))

/-- Bytes are fitted into the sector of the pointer. It shows what was there before in its other
bytes, up to the end of the file, and so do the other sectors. -/
theorem copyIn_spec (hholds : Holds g chains i cs n fs) (hin : fp.fptr < cs.length * g.bcs)
    (hsect : fp.sect = g.place cs fp.fptr / SS) {old : Mem}
    (hother : ∀ o < cs.length * g.bcs,g.place cs o / SS ≠ fp.sect →
      fs.view (g.place cs o) = old o)
    (hbuf : ∀ o < fp.objsize,g.place cs o / SS = fp.sect → fp.buf (o % SS) = old o)
    (hwithin : fp.fptr ≤ fp.objsize) (hcovered : fp.objsize ≤ cs.length * g.bcs) {btw : ℕ}
    (hbtw : 0 < btw) (pos : ℕ) (wbuff : Mem) :
    ∃ wcnt buf,FATFS.copyIn btw pos wbuff fp =
        (wcnt,{ fp with buf := buf, flag := fp.flag ||| FA_DIRTY }) ∧
      0 < wcnt ∧ wcnt ≤ btw ∧ fp.fptr % SS + wcnt ≤ SS ∧
      Buffered g chains i cs n { fp with buf := buf, flag := fp.flag ||| FA_DIRTY } fs ∧
      ∀ o < max fp.objsize (fp.fptr + wcnt),
        g.content cs { fp with buf := buf, flag := fp.flag ||| FA_DIRTY } fs o =
          memcpy old fp.fptr wbuff pos wcnt o := by
  have hlt := Nat.mod_lt fp.fptr SS_pos
  obtain ⟨wcnt,hwcnt,hpos,hle,hfit⟩ : ∃ wcnt,
      (if SS - fp.fptr % SS > btw then btw else SS - fp.fptr % SS) = wcnt ∧ 0 < wcnt ∧ wcnt ≤ btw ∧
        fp.fptr % SS + wcnt ≤ SS := by
    by_cases hclip : SS - fp.fptr % SS > btw
    · exact ⟨btw,if_pos hclip,hbtw,le_rfl,by omega⟩
    · exact ⟨SS - fp.fptr % SS,if_neg hclip,by omega,by omega,by omega⟩
  have hdirty := anyFlag_dirty fp.flag
  have hsects : g.Sectors cs fp.sect := hsect ▸ sectors_place hin
  have hcopy : FATFS.copyIn btw pos wbuff fp = (wcnt,{ fp with
      buf := memcpy fp.buf (fp.fptr % SS) wbuff pos wcnt, flag := fp.flag ||| FA_DIRTY }) := by
    simp only [FATFS.copyIn,hwcnt]
  refine ⟨wcnt,_,hcopy,hpos,hle,hfit,
    ⟨hholds,Or.inr hsects,fun hclean => absurd hdirty hclean⟩,fun o ho => ?_⟩
  have hroom := sector_within (g := g) hfit
  have hends := cluster_end hin hroom
  -- the bytes that are written, one by one
  have hwritten : ∀ j < wcnt,g.place cs (fp.fptr + j) / SS = fp.sect ∧
      (fp.fptr + j) % SS = fp.fptr % SS + j := by
    intro j hj
    obtain ⟨_,hdiv⟩ := place_in_sector (g := g) cs (o := fp.fptr) (k := j) (by omega)
    refine ⟨hdiv.trans hsect.symm,?_⟩
    rw [Nat.add_mod,Nat.mod_eq_of_lt (a := j) (by omega),Nat.mod_eq_of_lt (by omega)]
  show (if AnyFlag (fp.flag ||| FA_DIRTY) FA_DIRTY ∧ g.place cs o / SS = fp.sect then
    memcpy fp.buf (fp.fptr % SS) wbuff pos wcnt (g.place cs o % SS) else fs.view (g.place cs o)) = _
  rw [place_mod]
  by_cases hhere : fp.fptr ≤ o ∧ o < fp.fptr + wcnt
  · obtain ⟨j,rfl⟩ := Nat.exists_eq_add_of_le hhere.1
    obtain ⟨hdiv,hmod⟩ := hwritten j (by omega)
    rw [if_pos ⟨hdirty,hdiv⟩,hmod,memcpy_inside (by omega),memcpy_inside (by omega)]
  · have ho' : o < fp.objsize := by omega
    rw [memcpy_outside (d := fp.fptr) (by omega)]
    by_cases hsame : g.place cs o / SS = fp.sect
    · rw [if_pos ⟨hdirty,hsame⟩,memcpy_outside,hbuf o ho' hsame]
      by_contra hmid
      -- another byte of the sector is at another place of it
      obtain ⟨hdiv,hmod⟩ := hwritten (o % SS - fp.fptr % SS) (by omega)
      have hplace : g.place cs o = g.place cs (fp.fptr + (o % SS - fp.fptr % SS)) := by
        rw [← Nat.div_add_mod (g.place cs o) SS,
          ← Nat.div_add_mod (g.place cs (fp.fptr + _)) SS,place_mod,place_mod,hsame,hdiv,hmod]
        omega
      have hvalid : ∀ c ∈ cs,2 ≤ c ∧ c < g.nFatent := fun c hc => hholds.valid hc
      have hnodup := hholds.alloc.all.nodup (fun hc => by omega) i
      rw [Function.update_self] at hnodup
      have he := place_inj hvalid hnodup (by omega) (by omega) hplace
      omega
    · rw [if_neg fun hd => hsame hd.2]
      exact hother o (by omega) hsame

/-- Whole sectors of the file are written past the buffer, which is brought up to date when it holds
one of them. -/
theorem Buffered.writeSectors (h : Buffered g chains i cs n fp fs)
    (hclean : ¬AnyFlag fp.flag FA_DIRTY) (hin : fp.fptr < cs.length * g.bcs)
    (haligned : fp.fptr % SS = 0) {sect cc : ℕ} (hcc : 0 < cc)
    (hsect : sect = g.place cs fp.fptr / SS) (hfit : fp.fptr % g.bcs / SS + cc ≤ g.csize)
    (pos : ℕ) (wbuff : Mem) :
    ∃ buf flag fs',fs.write (fun a => wbuff (pos + a)) sect cc = (.ok,fs') ∧
      (if sect ≤ fp.sect ∧ fp.sect - sect < cc then
          { fp with
            buf := memcpy fp.buf 0 wbuff (pos + (fp.sect - sect) * SS) SS
            flag := fp.flag &&& (0xFF ^^^ FA_DIRTY) }
        else fp) = { fp with buf := buf, flag := flag } ∧
      mode flag = mode fp.flag ∧
      Buffered g chains i cs n { fp with buf := buf, flag := flag } fs' ∧ Beside g cs fs fs' ∧
      ∀ o < cs.length * g.bcs,g.content cs { fp with buf := buf, flag := flag } fs' o =
        memcpy (fun o => fs.view (g.place cs o)) fp.fptr wbuff pos (cc * SS) o := by
  obtain ⟨c,hc,hat⟩ := cluster_at hin
  have hsects : ∀ k < cc,g.Sectors cs (sect + k) := by
    intro k hk
    exact ⟨c,hc,fp.fptr % g.bcs / SS + k,by omega,by rw [hsect,place_div hat,Nat.add_assoc]⟩
  obtain ⟨fs',hwrite,hholds,hview,hbeside,_⟩ :=
    h.holds.write hcc hsects fun a => wbuff (pos + a)
  have hplace : g.place cs fp.fptr = sect * SS := by
    have hdiv := Nat.div_add_mod (g.place cs fp.fptr) SS
    rw [place_mod,haligned,← hsect] at hdiv
    rw [← hdiv,Nat.add_zero,Nat.mul_comm]
  have hroom := sectors_within haligned hfit
  rw [Nat.mul_comm] at hroom
  have hbytes : ∀ j < cc * SS,g.place cs (fp.fptr + j) = sect * SS + j := by
    intro j hj
    rw [place_add (by omega),hplace]
  -- a clean buffer, so the disk tells what is shown
  obtain ⟨buf,flag,hrefill,hclean',hmode,hcopy⟩ : ∃ buf flag,
      (if sect ≤ fp.sect ∧ fp.sect - sect < cc then
          { fp with
            buf := memcpy fp.buf 0 wbuff (pos + (fp.sect - sect) * SS) SS
            flag := fp.flag &&& (0xFF ^^^ FA_DIRTY) }
        else fp) = { fp with buf := buf, flag := flag } ∧ ¬AnyFlag flag FA_DIRTY ∧
      mode flag = mode fp.flag ∧
      (g.Sectors cs fp.sect → ∀ j < SS,buf j = fs'.view (fp.sect * SS + j)) := by
    by_cases hover : sect ≤ fp.sect ∧ fp.sect - sect < cc
    · refine ⟨_,_,if_pos hover,notDirty _,mode_and _,fun _ j hj => ?_⟩
      obtain ⟨k,hk⟩ := Nat.exists_eq_add_of_le hover.1
      have hlast : (k + 1) * SS ≤ cc * SS := Nat.mul_le_mul_right SS (by omega)
      rw [Nat.succ_mul] at hlast
      have hplace' : fp.sect * SS + j = sect * SS + (k * SS + j) := by rw [hk,Nat.add_mul,Nat.add_assoc]
      have hmem := @memcpy_inside fp.buf wbuff 0 (pos + k * SS) SS j hj
      rw [Nat.zero_add] at hmem
      rw [hview,hplace',memcpy_inside (by omega),hk,Nat.add_sub_cancel_left,hmem,Nat.zero_add,
        Nat.add_assoc]
    · refine ⟨fp.buf,fp.flag,if_neg hover,hclean,rfl,fun hsects' j hj => ?_⟩
      rw [hview,memcpy_outside,h.copy hclean hsects' j hj]
      rcases Nat.lt_or_ge fp.sect sect with hbefore | hbehind
      · have hle : (fp.sect + 1) * SS ≤ sect * SS := Nat.mul_le_mul_right SS hbefore
        rw [Nat.succ_mul] at hle
        omega
      · have hle : (sect + cc) * SS ≤ fp.sect * SS := Nat.mul_le_mul_right SS (by omega)
        rw [Nat.add_mul] at hle
        omega
  refine ⟨buf,flag,fs',hwrite,hrefill,hmode,
    ⟨hholds,h.sect.imp_left fun hnone => ⟨hnone.1,hclean'⟩,fun _ => hcopy⟩,hbeside,fun o ho => ?_⟩
  show Fil.shown { fp with buf := buf, flag := flag } fs'.view (g.place cs o) = _
  rw [Fil.shown_clean hclean',hview]
  by_cases hhere : fp.fptr ≤ o ∧ o < fp.fptr + cc * SS
  · obtain ⟨j,rfl⟩ := Nat.exists_eq_add_of_le hhere.1
    rw [hbytes j (by omega),memcpy_inside (by omega),memcpy_inside (by omega),Nat.zero_add]
  · rw [memcpy_outside (d := fp.fptr) (by omega)]
    refine memcpy_outside ?_
    by_contra hmid
    have hends := cluster_end hin hroom
    have hsame : g.place cs o = g.place cs (fp.fptr + (g.place cs o - sect * SS)) := by
      rw [hbytes _ (by omega)]
      omega
    have hvalid : ∀ c ∈ cs,2 ≤ c ∧ c < g.nFatent := fun c hc => h.holds.valid hc
    have hnodup := h.holds.alloc.all.nodup (fun hc => by omega) i
    rw [Function.update_self] at hnodup
    have he := place_inj hvalid hnodup ho (by omega) hsame
    omega

/-- What a round of the loop of `f_write` does: it replaces the next bytes of the file. -/
structure WriteRound (g : Geometry) (chains : ι → List ℕ) (i : ι) (cs : List ℕ) (n btw pos : ℕ)
    (wbuff : Mem) (fp : Fil Mem) (fs : FATFS) (wcnt : ℕ) (cs' : List ℕ) (n' : ℕ) (fp' : Fil Mem)
    (fs' : FATFS) : Prop where
  some : 0 < wcnt
  most : wcnt ≤ btw
  grown : Grown cs cs' n n'
  fptr : fp'.fptr = fp.fptr
  objsize : fp'.objsize = fp.objsize
  mode : mode fp'.flag = mode fp.flag
  opened : ∀ objsize,max fp.objsize (fp.fptr + wcnt) = objsize →
    Opened g chains i cs' n' { fp' with fptr := fp'.fptr + wcnt, objsize := objsize } fs'
  content : ∀ o < max fp.objsize (fp.fptr + wcnt),
    g.content cs' fp' fs' o = memcpy (g.content cs fp fs) fp.fptr wbuff pos wcnt o
  beside : Beside g cs' fs fs'

/-- The round ends in the buffer. -/
theorem Opened.copyInRound (h : Opened g chains i cs n fp fs) {btw : ℕ} (hbtw : 0 < btw) (pos : ℕ)
    (wbuff : Mem) (fp' : Fil Mem) (hgrown : Grown cs cs' n n')
    (hholds : Holds g chains i cs' n' fs') (hsect : fp'.sect = g.place cs' fp.fptr / SS)
    (hclust : cs'[fp.fptr / g.bcs]? = some fp'.clust) (hfptr : fp'.fptr = fp.fptr)
    (hobjsize : fp'.objsize = fp.objsize) (herr : fp'.err = fp.err)
    (hsclust : fp'.sclust = cs'.head?.getD 0) (hmode : Fatfs.mode fp'.flag = Fatfs.mode fp.flag) {old : Mem}
    (hold : ∀ o < fp.objsize,old o = g.content cs fp fs o)
    (hother : ∀ o < cs'.length * g.bcs,g.place cs' o / SS ≠ fp'.sect →
      fs'.view (g.place cs' o) = old o)
    (hbuf : ∀ o < fp.objsize,g.place cs' o / SS = fp'.sect → fp'.buf (o % SS) = old o)
    (hbeside : Beside g cs' fs fs') :
    ∃ wcnt fp'',FATFS.copyIn btw pos wbuff fp' = (wcnt,fp'') ∧
      WriteRound g chains i cs n btw pos wbuff fp fs wcnt cs' n' fp'' fs' := by
  have hin : fp.fptr < cs'.length * g.bcs := by
    have hlt := (List.getElem?_eq_some_iff.mp hclust).1
    exact (Nat.div_lt_iff_lt_mul (gbcs_pos g)).mp hlt
  have hcovered : fp.objsize ≤ cs'.length * g.bcs :=
    h.covered.trans (Nat.mul_le_mul_right _ hgrown.longer.length_le)
  rw [← hfptr] at hsect hin
  rw [← hobjsize] at hbuf hcovered
  have hwithin := h.within
  rw [← hobjsize,← hfptr] at hwithin
  obtain ⟨wcnt,buf,hcopy,hpos,hle,hfit,hbuf',hcontent⟩ :=
    copyIn_spec hholds hin hsect hother hbuf hwithin hcovered hbtw pos wbuff
  rw [hfptr] at hfit
  refine ⟨wcnt,_,hcopy,hpos,hle,hgrown,hfptr,hobjsize,(mode_dirty _).trans hmode,?_,fun o ho => ?_,
    hbeside⟩
  · rintro objsize rfl
    have hroom := sector_within (g := g) hfit
    have hends := cluster_end (hfptr ▸ hin) hroom
    have hle' : fp'.fptr + wcnt ≤ max fp.objsize (fp.fptr + wcnt) := hfptr ▸ le_max_right _ _
    have hcovered' : max fp.objsize (fp.fptr + wcnt) ≤ cs'.length * g.bcs :=
      max_le (hobjsize ▸ hcovered) hends
    rw [← hfptr] at hclust hroom
    refine hbuf'.advance (herr.trans h.err) hsclust hclust hpos hroom hle' hcovered' fun hmod => ?_
    show fp'.sect = g.place cs' (fp'.fptr + wcnt) / SS
    rw [← hfptr] at hfit
    rw [hsect]
    exact (place_in_sector cs' (sector_end hfit hmod)).2.symm
  · refine (hcontent o (by rwa [hobjsize,hfptr])).trans ?_
    rw [hfptr]
    by_cases hhere : fp.fptr ≤ o ∧ o < fp.fptr + wcnt
    · obtain ⟨j,rfl⟩ := Nat.exists_eq_add_of_le hhere.1
      rw [memcpy_inside (by omega),memcpy_inside (by omega)]
    · rw [memcpy_outside (by omega),memcpy_outside (by omega),hold o (by omega)]

/-- The buffer is filled with the sector, unless the file ends where the pointer is: then no byte of
the sector is the file's. -/
theorem Buffered.fillForWrite (h : Buffered g chains i cs n fp fs)
    (hclean : ¬AnyFlag fp.flag FA_DIRTY) (hin : fp.fptr < cs.length * g.bcs)
    (haligned : fp.fptr % SS = 0) {sect : ℕ} (hsect : sect = g.place cs fp.fptr / SS)
    (hcovered : fp.objsize ≤ cs.length * g.bcs) :
    ∃ buf,(if fp.sect ≠ sect ∧ fp.fptr < fp.objsize then fs.read fp.buf sect 1 else (.ok,fp.buf)) =
        (DResult.ok,buf) ∧
      ∀ o < fp.objsize,g.place cs o / SS = sect → buf (o % SS) = fs.view (g.place cs o) := by
  have hsects : g.Sectors cs sect := hsect ▸ sectors_place hin
  have hsplit : ∀ o,g.place cs o / SS = sect → g.place cs o = sect * SS + o % SS := by
    intro o ho
    have hdiv := Nat.div_add_mod (g.place cs o) SS
    rw [ho,place_mod,Nat.mul_comm] at hdiv
    exact hdiv.symm
  by_cases hload : fp.sect ≠ sect ∧ fp.fptr < fp.objsize
  · obtain ⟨data,hread,hdata⟩ := h.holds.read Nat.one_pos (one_sector hsects) fp.buf
    rw [Nat.one_mul] at hdata
    refine ⟨data,(if_pos hload).trans hread,fun o _ ho => ?_⟩
    rw [hdata _ (Nat.mod_lt _ SS_pos),hsplit o ho]
  · refine ⟨fp.buf,if_neg hload,fun o hlt ho => ?_⟩
    by_cases hsame : fp.sect = sect
    · rw [h.copy hclean (hsame ▸ hsects) _ (Nat.mod_lt _ SS_pos),hsame,hsplit o ho]
    · -- a byte of this sector is not before the pointer
      have hend : fp.objsize ≤ fp.fptr := not_lt.mp fun hlt' => hload ⟨hsame,hlt'⟩
      have hmod := Nat.mod_lt o SS_pos
      obtain ⟨hplace,_⟩ :=
        place_in_sector (g := g) cs (o := fp.fptr) (k := o % SS) (by omega)
      have hptr := hsplit fp.fptr hsect.symm
      rw [haligned,Nat.add_zero] at hptr
      have he : g.place cs o = g.place cs (fp.fptr + o % SS) := by rw [hplace,hptr,hsplit o ho]
      have hvalid : ∀ c ∈ cs,2 ≤ c ∧ c < g.nFatent := fun c hc => h.holds.valid hc
      have hnodup := h.holds.alloc.all.nodup (fun hc => by omega) i
      rw [Function.update_self] at hnodup
      have hroom := sector_within (g := g) (o := fp.fptr) (k := o % SS + 1) (by omega)
      have hends := cluster_end hin hroom
      have hsame' := place_inj hvalid hnodup (by omega) (by omega) he
      omega

/-- A round of the loop replaces the next bytes of the file, or the disk is full. -/
theorem Opened.writeRound (validate : Fil Mem → FATFS → FResult)
    (h : Opened g chains i cs n fp fs) {btw : ℕ} (hbtw : 0 < btw) (pos : ℕ)
    (wbuff : Mem) :
    (∃ wcnt cs' n' fp' fs',FATFS.writeRound g validate btw pos wbuff fp fs =
        (.ok (some wcnt),fp',fs') ∧ WriteRound g chains i cs n btw pos wbuff fp fs wcnt cs' n' fp' fs') ∨
    (∃ fs',FATFS.writeRound g validate btw pos wbuff fp fs = (.ok none,fp,fs') ∧ n = 0 ∧
      fp.fptr = cs.length * g.bcs ∧ Opened g chains i cs n fp fs' ∧ Beside g cs fs fs' ∧
      ∀ o < cs.length * g.bcs,g.content cs fp fs' o = g.content cs fp fs o) := by
  have hcovered := h.covered
  rw [FATFS.writeRound]
  by_cases haligned : fp.fptr % SS = 0
  · rw [if_pos haligned]
    rcases h.writeCluster validate haligned with
      ⟨clust,sclust,cs',n',fs₁,hcluster,hgrown,hat,hsclust,hbuf,hbeside,hsame⟩ |
      ⟨fs',hcluster,hn,hend,hbuf,hbeside,hsame⟩
    · left
      have hin : fp.fptr < cs'.length * g.bcs :=
        (Nat.div_lt_iff_lt_mul (gbcs_pos g)).mp (List.getElem?_eq_some_iff.mp hat).1
      have hbuf₁ : Buffered g chains i cs' n' { fp with clust := clust, sclust := sclust } fs₁ :=
        ⟨hbuf.holds,hbuf.sect,hbuf.copy⟩
      obtain ⟨flag,fs₂,hflush,hclean,hmode,hbuf₂,hview,hbeside₂,_⟩ := hbuf₁.flushBuf
      have hvalid := hbuf.holds.valid (List.mem_of_getElem? hat)
      obtain ⟨hdata,_,hpos⟩ := cluster_sectors hvalid.1 hvalid.2
      have hsect := place_div hat
      have hall := hbeside.trans hbeside₂ List.prefix_rfl
      -- what is on the disk now is what was shown
      have hold : ∀ o < cs.length * g.bcs,fs₂.view (g.place cs' o) = g.content cs fp fs o := by
        intro o ho
        rw [hview,place_longer hgrown.longer ho]
        exact shown_congr fp (hsame _ (sectors_place ho))
      rw [hcluster]
      dsimp only
      rw [hflush]
      dsimp only
      rw [if_neg (by omega),FATFS.csect]
      dsimp only
      rw [csect_eq,← hsect]
      by_cases hmany : btw / SS > 0
      · obtain ⟨cc,hclip,hcc,hfit,hmost⟩ := clip_sectors (g := g) (o := fp.fptr) hmany
        obtain ⟨buf,flag',fs₃,hwrite,hrefill,hmode',hbuf₃,hbeside₃,hcontent⟩ :=
          hbuf₂.writeSectors hclean hin haligned hcc rfl hfit pos wbuff
        have hroom := sectors_within haligned hfit
        have hends := cluster_end hin hroom
        rw [if_pos hmany,hclip,hwrite]
        dsimp only at hrefill ⊢
        rw [hrefill]
        refine ⟨SS * cc,cs',n',_,fs₃,rfl,Nat.mul_pos SS_pos hcc,
          (Nat.mul_le_mul_left SS hmost).trans (Nat.mul_div_le _ _),hgrown,rfl,rfl,
          hmode'.trans hmode,?_,fun o ho => ?_,hall.trans hbeside₃ List.prefix_rfl⟩
        · rintro objsize rfl
          have hsize : fp.objsize ≤ cs'.length * g.bcs :=
            hcovered.trans (Nat.mul_le_mul_right _ hgrown.longer.length_le)
          refine hbuf₃.advance h.err hsclust hat (Nat.mul_pos SS_pos hcc) hroom (le_max_right _ _)
            (max_le hsize hends) fun hmod => absurd ?_ hmod
          rw [Nat.add_mul_mod_self_left,haligned]
        · rw [Nat.mul_comm] at ho ⊢
          rw [Nat.mul_comm] at hends
          have hsize : fp.objsize ≤ cs'.length * g.bcs :=
            hcovered.trans (Nat.mul_le_mul_right _ hgrown.longer.length_le)
          refine (hcontent o (ho.trans_le (max_le hsize hends))).trans ?_
          show memcpy _ fp.fptr wbuff pos (cc * SS) o = _
          have hwithin := h.within
          by_cases hhere : fp.fptr ≤ o ∧ o < fp.fptr + cc * SS
          · obtain ⟨j,rfl⟩ := Nat.exists_eq_add_of_le hhere.1
            rw [memcpy_inside (by omega),memcpy_inside (by omega)]
          · rw [memcpy_outside (by omega),memcpy_outside (by omega),hold o (by omega)]
      · rw [if_neg hmany]
        have hsize : fp.objsize ≤ cs'.length * g.bcs :=
          hcovered.trans (Nat.mul_le_mul_right _ hgrown.longer.length_le)
        obtain ⟨buf,hload,hbytes⟩ := hbuf₂.fillForWrite hclean hin haligned rfl hsize
        dsimp only at hload
        rw [hload]
        obtain ⟨wcnt,fp',hcopy,hround⟩ := h.copyInRound hbtw pos wbuff { fp with
            clust := clust, sclust := sclust, flag := flag, buf := buf,
            sect := g.place cs' fp.fptr / SS } hgrown hbuf₂.holds rfl hat rfl rfl rfl hsclust
          hmode (fun o ho => hold o (by omega)) (fun o _ _ => rfl) hbytes hall
        dsimp only
        rw [hcopy]
        exact ⟨wcnt,cs',n',fp',fs₂,rfl,hround⟩
    · right
      obtain rfl := hn
      rw [hcluster]
      refine ⟨fs',rfl,rfl,hend,⟨hbuf,h.err,h.sclust,h.within,h.covered,h.clust,h.loaded⟩,hbeside,
        fun o ho => shown_congr fp (hsame _ (sectors_place ho))⟩
  · left
    have hmid := mid_cluster (g := g) haligned
    have hin : fp.fptr < cs.length * g.bcs := by
      have hlt := (List.getElem?_eq_some_iff.mp (h.clust_mid hmid)).1
      exact (Nat.div_lt_iff_lt_mul (gbcs_pos g)).mp hlt
    have hsects : g.Sectors cs fp.sect := h.loaded haligned ▸ sectors_place hin
    obtain ⟨wcnt,fp',hcopy,hround⟩ := h.copyInRound hbtw pos wbuff fp (.refl cs n) h.holds
      (h.loaded haligned) (h.clust_mid hmid) rfl rfl rfl h.sclust rfl (fun _ _ => rfl)
      (fun o _ hne => (if_neg fun hd => hne hd.2).symm)
      (fun o _ hsame => by rw [Geometry.content,h.buf_eq hsame hsects,place_mod]) (.refl g cs fs)
    rw [if_neg haligned,hcopy]
    exact ⟨wcnt,cs,n,fp',fs,rfl,hround⟩

/-- Some bytes of the file were replaced from the pointer on, and it stands behind them. -/
structure TakesBytes (g : Geometry) (chains : ι → List ℕ) (i : ι) (cs : List ℕ) (n cnt pos : ℕ)
    (wbuff : Mem) (fp : Fil Mem) (fs : FATFS) (cs' : List ℕ) (n' : ℕ) (fp' : Fil Mem)
    (fs' : FATFS) : Prop where
  grown : Grown cs cs' n n'
  fptr : fp'.fptr = fp.fptr + cnt
  objsize : fp'.objsize = max fp.objsize (fp.fptr + cnt)
  mode : mode fp'.flag = mode fp.flag ||| FA_MODIFIED
  opened : Opened g chains i cs' n' fp' fs'
  content : ∀ o < fp'.objsize,
    g.content cs' fp' fs' o = memcpy (g.content cs fp fs) fp.fptr wbuff pos cnt o
  beside : Beside g cs' fs fs'

theorem modified_dirty (w : ℕ) : AnyFlag (w ||| FA_MODIFIED) FA_DIRTY ↔ AnyFlag w FA_DIRTY := by
  rw [anyFlag_lor]
  exact or_iff_left (by decide)

theorem mode_modified (w : ℕ) : mode (w ||| FA_MODIFIED) = mode w ||| FA_MODIFIED := by
  rw [mode,Nat.and_or_distrib_right]
  rfl

/-- The change flag is set when the loop is left. -/
theorem Opened.takesNone (h : Opened g chains i cs n fp fs) (hb : Beside g cs fs fs')
    (h' : Opened g chains i cs n fp fs')
    (hsame : ∀ o < cs.length * g.bcs,g.content cs fp fs' o = g.content cs fp fs o) (pos : ℕ)
    (wbuff : Mem) :
    TakesBytes g chains i cs n 0 pos wbuff fp fs cs n { fp with flag := fp.flag ||| FA_MODIFIED } fs' := by
  have hdirty := modified_dirty fp.flag
  refine ⟨.refl cs n,rfl,(max_eq_left h.within).symm,mode_modified _,⟨⟨h'.holds,?_,?_⟩,h'.err,
    h'.sclust,h'.within,h'.covered,h'.clust,h'.loaded⟩,fun o ho => ?_,hb⟩
  · exact h'.sect.imp_left fun hnone => ⟨hnone.1,fun hd => hnone.2 (hdirty.mp hd)⟩
  · exact fun hclean => h'.copy fun hd => hclean (hdirty.mpr hd)
  · rw [memcpy_zero,← hsame o (lt_of_lt_of_le ho h.covered)]
    show (if AnyFlag (fp.flag ||| FA_MODIFIED) FA_DIRTY ∧ _ then _ else _) = _
    simp only [hdirty]
    rfl

theorem Opened.writeLoop (validate : Fil Mem → FATFS → FResult) {fuel btw : ℕ}
    (h : Opened g chains i cs n fp fs) (hfuel : btw ≤ fuel) (bw : ℕ) (wbuff : Mem) :
    ∃ cs' n' fp' fs',FATFS.writeLoop g validate fuel btw bw wbuff fp fs =
        ((.ok,bw + min btw ((cs.length + n) * g.bcs - fp.fptr)),fp',fs') ∧
      TakesBytes g chains i cs n (min btw ((cs.length + n) * g.bcs - fp.fptr)) bw wbuff fp fs
        cs' n' fp' fs' := by
  induction fuel generalizing btw bw cs n fp fs with
  | zero =>
    obtain rfl : btw = 0 := by omega
    rw [Nat.zero_min]
    exact ⟨cs,n,_,fs,rfl,h.takesNone (.refl g cs fs) h (fun _ _ => rfl) bw wbuff⟩
  | succ fuel ih =>
    rw [FATFS.writeLoop]
    by_cases hbtw : btw > 0
    · rw [if_pos hbtw]
      rcases h.writeRound validate hbtw bw wbuff with
        ⟨wcnt,cs₁,n₁,fp₁,fs₁,hround,hr⟩ | ⟨fs',hround,hn,hend,hopen,hbeside,hsame⟩
      · have hopened := hr.opened _ rfl
        have hfptr := hr.fptr
        have hmost := hr.most
        have hsize : (if fp₁.fptr + wcnt > fp₁.objsize then fp₁.fptr + wcnt else fp₁.objsize) =
            max fp.objsize (fp.fptr + wcnt) := by
          rw [hfptr,hr.objsize,max_def_lt]
        have hsome := hr.some
        have hleft : btw - wcnt ≤ fuel := by omega
        obtain ⟨cs',n',fp',fs',hloop,ht⟩ := ih hopened hleft (bw + wcnt)
        -- what is left of the room behind these bytes
        have hroom : fp.fptr + wcnt ≤ (cs.length + n) * g.bcs := by
          have hin : fp₁.fptr + wcnt ≤ cs₁.length * g.bcs := hopened.within.trans hopened.covered
          have hle : cs₁.length * g.bcs ≤ (cs₁.length + n₁) * g.bcs :=
            Nat.mul_le_mul_right _ (Nat.le_add_right _ _)
          rw [hr.grown.room] at hle
          omega
        have hcnt : min btw ((cs.length + n) * g.bcs - fp.fptr) =
            wcnt + min (btw - wcnt) ((cs₁.length + n₁) * g.bcs - (fp₁.fptr + wcnt)) := by
          rw [hr.grown.room]
          omega
        have hall : ∀ k,bw + wcnt + k = bw + (wcnt + k) := fun k => Nat.add_assoc bw wcnt k
        rw [hround]
        dsimp only at hloop ⊢
        rw [hsize,hloop,hcnt,hall]
        generalize min (btw - wcnt) ((cs₁.length + n₁) * g.bcs - (fp₁.fptr + wcnt)) = rest at ht ⊢
        have hptr : fp'.fptr = fp₁.fptr + wcnt + rest := ht.fptr
        have hlong : fp'.objsize = max (max fp.objsize (fp.fptr + wcnt)) (fp₁.fptr + wcnt + rest) :=
          ht.objsize
        refine ⟨cs',n',fp',fs',rfl,hr.grown.trans ht.grown,by omega,?_,by rw [ht.mode,← hr.mode],
          ht.opened,fun o ho => ?_,hr.beside.trans ht.beside ht.grown.longer⟩
        · rw [hlong,hfptr,max_assoc,max_eq_right (a := fp.fptr + wcnt) (by omega),Nat.add_assoc]
        · refine (ht.content o ho).trans ?_
          show memcpy (g.content cs₁ fp₁ fs₁) (fp₁.fptr + wcnt) wbuff (bw + wcnt) rest o = _
          rw [hfptr]
          by_cases hlast : fp.fptr + wcnt ≤ o ∧ o < fp.fptr + wcnt + rest
          · obtain ⟨j,rfl⟩ := Nat.exists_eq_add_of_le hlast.1
            rw [memcpy_inside (by omega),Nat.add_assoc fp.fptr,memcpy_inside (by omega),Nat.add_assoc]
          · rw [memcpy_outside (by omega),hr.content o (by omega)]
            by_cases hfirst : fp.fptr ≤ o ∧ o < fp.fptr + wcnt
            · obtain ⟨j,rfl⟩ := Nat.exists_eq_add_of_le hfirst.1
              rw [memcpy_inside (by omega),memcpy_inside (by omega)]
            · rw [memcpy_outside (by omega),memcpy_outside (by omega)]
      · rw [hround]
        have hzero : min btw ((cs.length + n) * g.bcs - fp.fptr) = 0 := by
          rw [hn,Nat.add_zero,hend,Nat.sub_self,Nat.min_zero]
        rw [hzero]
        exact ⟨cs,n,_,fs',rfl,h.takesNone hbeside hopen hsame bw wbuff⟩
    · obtain rfl : btw = 0 := by omega
      rw [if_neg hbtw,Nat.zero_min]
      exact ⟨cs,n,_,fs,rfl,h.takesNone (.refl g cs fs) h (fun _ _ => rfl) bw wbuff⟩

/-- `f_write` replaces the bytes from the pointer on, as many as the disk can come to hold for the
file; the file and the rest of the volume stay as they are apart from that. -/
theorem Opened.fWrite {validate : Fil Mem → FATFS → FResult} (h : Opened g chains i cs n fp fs)
    (hok : (g.volume validate).check fp fs = .ok) (hmode : fp.flag &&& FA_WRITE ≠ 0) (btw : ℕ)
    (wbuff : Mem) :
    ∃ cs' n' fp' fs',FATFS.fWrite g validate btw wbuff fp fs =
        ((.ok,min btw ((cs.length + n) * g.bcs - fp.fptr)),fp',fs') ∧
      TakesBytes g chains i cs n (min btw ((cs.length + n) * g.bcs - fp.fptr)) 0 wbuff fp fs
        cs' n' fp' fs' := by
  have hroom := h.holds.small
  have hwithin := h.within.trans h.covered
  -- a size that 32 bits do not hold is more than the disk has
  have hclip : min (if (fp.fptr + btw) % 2 ^ 32 < fp.fptr then 0xFFFFFFFF - fp.fptr else btw)
      ((cs.length + n) * g.bcs - fp.fptr) = min btw ((cs.length + n) * g.bcs - fp.fptr) := by
    by_cases hwrap : (fp.fptr + btw) % 2 ^ 32 < fp.fptr
    · rw [if_pos hwrap]
      omega
    · rw [if_neg hwrap]
  obtain ⟨cs',n',fp',fs',hloop,ht⟩ := h.writeLoop validate le_rfl 0 wbuff
  rw [hclip] at hloop ht
  refine ⟨cs',n',fp',fs',?_,ht⟩
  simp only [FATFS.fWrite,hok,ne_eq,not_true_eq_false,if_false,if_neg hmode,hloop,Nat.zero_add]

end Write

end UcVfs.Fatfs
