import Xperimentum.SystemKit.Screen

/-! The requests that applying a layout sends to the server, and when the server accepts all of them. -/

namespace Xperimentum.SystemKit.OSEScreen

variable {e : Surroundings} {s t : OSEScreen} {layout : List Entry} {d : Entry} {w h : ℤ}

/-- Enabled rectangles lie inside the screen, one for each output that has one, and no request was rejected. -/
structure Regular (s : OSEScreen) : Prop where
  inside : ∀ c ∈ s.server.crtcs, c.frame.Fits s.server.width s.server.height
  known : ∀ c ∈ s.server.crtcs, c.output ∈ s.outputs
  single : ∀ c ∈ s.server.crtcs, ∀ c' ∈ s.server.crtcs, c.output = c'.output → c = c'
  accepted : s.server.rejected = []

/-- Each frame of an active display has a size that the display supports. -/
def Supported (s : OSEScreen) (layout : List Entry) : Prop :=
  ∀ d ∈ layout, d.isActive = .yes →
    ∃ m ∈ (s.display d.name).modes, m.width = d.frame.width ∧ m.height = d.frame.height

def RespectsServer (e : Surroundings) (s : OSEScreen) (layout : List Entry) : Prop :=
  let s' := s.applyDisplayLayout e layout
  s'.server.rejected = [] ∧ (s'.server.width, s'.server.height) = sizeInPixelsForLayout layout ∧
    (s'.width, s'.height) = sizeInPixelsForLayout layout

/-- The entry puts a rectangle on the screen. -/
def Placed (e : Surroundings) (s : OSEScreen) (d : Entry) : Prop :=
  d.name ∈ s.outputs ∧ d.isActive = .yes ∧ ¬((s.display d.name).isBuiltin = true ∧ e.isLidClosed = true)

def Grows (s : OSEScreen) (layout : List Entry) : Prop :=
  (sizeInPixelsForLayout layout).1 > s.width ∧ (sizeInPixelsForLayout layout).2 > s.height

def Shrinks (s : OSEScreen) (layout : List Entry) : Prop :=
  (sizeInPixelsForLayout layout).1 < s.width ∨ (sizeInPixelsForLayout layout).2 < s.height

instance : Decidable (Grows s layout) := inferInstanceAs (Decidable (_ ∧ _))

instance : Decidable (Shrinks s layout) := inferInstanceAs (Decidable (_ ∨ _))

instance : Decidable (Placed e s d) := inferInstanceAs (Decidable (_ ∧ _ ∧ ¬(_ ∧ _)))

/-- The screen is made bigger in both directions in front of the rectangles, or holds them as it is; it is made smaller
behind them only where rectangles of displays without an entry fit; and it has the new size in the end. -/
structure Applicable (e : Surroundings) (s : OSEScreen) (layout : List Entry) : Prop where
  growth : s.Grows layout →
    ∀ c ∈ s.server.crtcs, c.frame.Fits (sizeInPixelsForLayout layout).1 (sizeInPixelsForLayout layout).2
  placed : ∀ d ∈ layout, s.Placed e d →
    if s.Grows layout then d.frame.Fits (sizeInPixelsForLayout layout).1 (sizeInPixelsForLayout layout).2
    else d.frame.Fits s.server.width s.server.height
  shrinking : s.Shrinks layout → ∀ c ∈ s.server.crtcs, c.output ∉ layout.map (·.name) →
    c.frame.Fits (sizeInPixelsForLayout layout).1 (sizeInPixelsForLayout layout).2
  size : s.Grows layout ∨ s.Shrinks layout ∨
    (s.server.width, s.server.height) = sizeInPixelsForLayout layout

section Sizes

lemma le_enclose (size : ℤ × ℤ) (d : Entry) : size.1 ≤ (enclose size d).1 ∧ size.2 ≤ (enclose size d).2 := by
  rw [enclose]
  split
  · exact ⟨le_rfl, le_rfl⟩
  · exact ⟨le_max_left _ _, le_max_left _ _⟩

lemma le_foldl_enclose (size : ℤ × ℤ) (l : List Entry) :
    size.1 ≤ (l.foldl enclose size).1 ∧ size.2 ≤ (l.foldl enclose size).2 := by
  induction l generalizing size with
  | nil => exact ⟨le_rfl, le_rfl⟩
  | cons d l ih =>
    obtain ⟨hw, hh⟩ := le_enclose size d
    exact ⟨hw.trans (ih _).1, hh.trans (ih _).2⟩

lemma frame_le_foldl_enclose {size : ℤ × ℤ} (hd : d ∈ layout) (hactive : d.isActive ≠ .no) :
    d.frame.x + d.frame.width ≤ (layout.foldl enclose size).1 ∧
      d.frame.y + d.frame.height ≤ (layout.foldl enclose size).2 := by
  induction layout generalizing size with
  | nil => cases hd
  | cons a l ih =>
    rcases List.mem_cons.mp hd with rfl | hd
    · obtain ⟨hw, hh⟩ := le_foldl_enclose (enclose size d) l
      rw [enclose, if_neg hactive] at hw hh
      rw [List.foldl_cons, enclose, if_neg hactive]
      exact ⟨(le_max_right _ _).trans hw, (le_max_right _ _).trans hh⟩
    · exact ih hd

lemma fits_newSize (hfit : d.frame.Fits w h) (hd : d ∈ layout) (hactive : d.isActive = .yes) :
    d.frame.Fits (sizeInPixelsForLayout layout).1 (sizeInPixelsForLayout layout).2 :=
  ⟨hfit.1, hfit.2.1, frame_le_foldl_enclose hd (by simp [hactive])⟩

end Sizes

section Entries

lemma server_disable (s : OSEScreen) (name : String) (x : OSEDisplay) :
    (s.disable name x).server = { s.server with crtcs := s.server.others name } :=
  OSEDisplay.setResolution_off (Or.inl rfl)

lemma applyEntry_unknown (h : d.name ∉ s.outputs) : applyEntry e s d = s := if_pos h

lemma server_applyEntry_off (hname : d.name ∈ s.outputs) (h : ¬s.Placed e d) :
    (applyEntry e s d).server = { s.server with crtcs := s.server.others d.name } := by
  simp only [applyEntry, if_neg (not_not.mpr hname)]
  split
  · next hactive =>
    rw [if_pos]
    · exact server_disable s d.name _
    · by_contra hlid
      exact h ⟨hname, hactive, by simpa using hlid⟩
  · exact server_disable s d.name _

lemma server_applyEntry_on (h : s.Placed e d) (hsize : 0 < d.frame.width ∧ 0 < d.frame.height)
    (hmode : ∃ m ∈ (s.display d.name).modes, m.width = d.frame.width ∧ m.height = d.frame.height) :
    ∃ c : CRTC, c.output = d.name ∧ c.frame = d.frame ∧
      ((applyEntry e s d).server = s.server.setCrtcConfig c.output c.x c.y (some c.mode) ∨
        (applyEntry e s d).server = s.server ∧ c ∈ s.server.crtcs) := by
  obtain ⟨hname, hactive, hlid⟩ := h
  obtain ⟨hwidth, hheight⟩ :=
    (s.display d.name).resolutionWithWidth_size d.frame.width d.frame.height d.frameRate
  obtain ⟨l, hl⟩ := (s.display d.name).resolutionWithWidth_display d.frame.width d.frame.height d.frameRate
  generalize hr : (s.display d.name).resolutionWithWidth d.frame.width d.frame.height d.frameRate = r at *
  have hmode' : ∃ m ∈ r.2.modes, m.width = r.1.width ∧ m.height = r.1.height := by
    rw [hwidth, hheight, hl]
    exact hmode
  obtain ⟨m, hm, hmw, hmh⟩ := OSEDisplay.exists_modeForResolution hmode'
  refine ⟨⟨d.name, m, d.frame.x, d.frame.y⟩, rfl, ?_, ?_⟩
  · simp only [CRTC.frame, hmw, hmh, hwidth, hheight]
  · have hlid' : ¬((s.display d.name).isBuiltin && e.isLidClosed) = true := by simpa using hlid
    simp only [applyEntry, if_neg (not_not.mpr hname), if_pos hactive, if_neg hlid', hr]
    exact OSEDisplay.setResolution_on hm (by omega)

lemma Kin.placed_iff (h : Kin s t) : t.Placed e d ↔ s.Placed e d := by
  simp only [Placed, h.outputs, h.isBuiltin]

end Entries

section Rejections

lemma rejected_setCrtcConfig (v : Server) (output : String) (x y : ℤ) (mode : Option Mode) :
    v.rejected <+: (v.setCrtcConfig output x y mode).rejected := by
  cases mode with
  | none => exact List.prefix_rfl
  | some m =>
    simp only [Server.setCrtcConfig]
    split
    · exact List.prefix_rfl
    · exact List.prefix_append _ _

lemma rejected_setResolution (x : OSEDisplay) (v : Server) (output : String) (r : Resolution) (i j : ℤ) :
    v.rejected <+: (x.setResolution output r i j v).2.rejected := by
  simp only [OSEDisplay.setResolution]
  generalize (if r.width = 0 ∨ r.height = 0 then none else x.modeForResolution r) = mode
  split
  · exact rejected_setCrtcConfig ..
  · exact List.prefix_rfl

lemma rejected_applyEntry (e : Surroundings) (s : OSEScreen) (d : Entry) :
    s.server.rejected <+: (applyEntry e s d).server.rejected := by
  simp only [applyEntry]
  split
  · exact List.prefix_rfl
  · split
    · split
      · exact rejected_setResolution ..
      · exact rejected_setResolution ..
    · exact rejected_setResolution ..

lemma rejected_foldl (e : Surroundings) (s : OSEScreen) (l : List Entry) :
    s.server.rejected <+: (l.foldl (applyEntry e) s).server.rejected := by
  induction l generalizing s with
  | nil => exact List.prefix_rfl
  | cons d l ih => exact (rejected_applyEntry e s d).trans (ih _)

lemma rejected_setScreenSize (s : OSEScreen) (w h : ℤ) :
    (s.setScreenSize w h).server.rejected = [] ↔
      s.server.rejected = [] ∧ ∀ c ∈ s.server.crtcs, c.frame.Fits w h := by
  simp only [setScreenSize, Server.setScreenSize]
  split
  · next hfits => exact ⟨fun hr => ⟨hr, hfits⟩, fun hr => hr.1⟩
  · next hfits =>
    refine ⟨fun hr => ?_, fun hr => (hfits hr.2).elim⟩
    exact (List.append_ne_nil_of_right_ne_nil _ (List.cons_ne_nil _ _) hr).elim

lemma server_setScreenSize {s : OSEScreen} {w h : ℤ} (hfits : ∀ c ∈ s.server.crtcs, c.frame.Fits w h) :
    (s.setScreenSize w h).server = { s.server with width := w, height := h } := if_pos hfits

end Rejections

section Loop

/-- The loop over the layout, behind the entries of those names. -/
structure Progress (e : Surroundings) (s t : OSEScreen) (layout : List Entry) (names : List String) : Prop where
  kin : Kin s t
  width : t.server.width = s.server.width
  height : t.server.height = s.server.height
  regular : t.Regular
  old : ∀ c ∈ s.server.crtcs, c.output ∉ names → c ∈ t.server.crtcs
  new : ∀ c ∈ t.server.crtcs, c ∈ s.server.crtcs ∧ c.output ∉ names ∨ ∃ d ∈ layout, s.Placed e d ∧ c.frame = d.frame

lemma mem_others {v : Server} {c : CRTC} {output : String} :
    c ∈ v.others output ↔ c ∈ v.crtcs ∧ c.output ≠ output := by simp [Server.others]

variable {names : List String}

lemma Progress.next (h : Progress e s t layout names) {u : OSEScreen} (hkin : Kin t u) (hd : d ∈ layout)
    (hname : d.name ∈ s.outputs) {v : List CRTC} (o : Option CRTC)
    (hserver : u.server = { t.server with crtcs := v })
    (hcrtcs : ∀ c, c ∈ v ↔ c ∈ o ∨ c ∈ t.server.crtcs ∧ c.output ≠ d.name)
    (ho : ∀ c ∈ o, c.output = d.name ∧ s.Placed e d ∧ c.frame = d.frame ∧
      d.frame.Fits t.server.width t.server.height) : Progress e s u layout (names ++ [d.name]) := by
  have hmem : ∀ c, c ∈ u.server.crtcs ↔ c ∈ o ∨ c ∈ t.server.crtcs ∧ c.output ≠ d.name := by
    rw [hserver]
    exact hcrtcs
  have hwidth : u.server.width = t.server.width := by rw [hserver]
  have hheight : u.server.height = t.server.height := by rw [hserver]
  refine ⟨h.kin.trans hkin, hwidth.trans h.width, hheight.trans h.height, ⟨fun c hc => ?_, fun c hc => ?_,
    fun c hc c' hc' heq => ?_, ?_⟩, fun c hc hout => ?_, fun c hc => ?_⟩
  · rw [hwidth, hheight]
    rcases (hmem c).mp hc with hc | ⟨hc, _⟩
    · obtain ⟨_, _, hframe, hfits⟩ := ho c hc
      exact hframe ▸ hfits
    · exact h.regular.inside c hc
  · rw [hkin.outputs]
    rcases (hmem c).mp hc with hc | ⟨hc, _⟩
    · rw [(ho c hc).1, h.kin.outputs]
      exact hname
    · exact h.regular.known c hc
  · rcases (hmem c).mp hc with hc | ⟨hc, hne⟩
    · rcases (hmem c').mp hc' with hc' | ⟨hc', hne'⟩
      · exact Option.mem_unique hc hc'
      · exact (hne' (heq ▸ (ho c hc).1)).elim
    · rcases (hmem c').mp hc' with hc' | ⟨hc', _⟩
      · exact (hne (heq.trans (ho c' hc').1)).elim
      · exact h.regular.single c hc c' hc' heq
  · rw [hserver]
    exact h.regular.accepted
  · rw [List.mem_append, not_or, List.mem_singleton] at hout
    exact (hmem c).mpr (Or.inr ⟨h.old c hc hout.1, hout.2⟩)
  · rcases (hmem c).mp hc with hc | ⟨hc, hne⟩
    · exact Or.inr ⟨d, hd, (ho c hc).2.1, (ho c hc).2.2.1⟩
    · rcases h.new c hc with ⟨hold, hout⟩ | hnew
      · refine Or.inl ⟨hold, ?_⟩
        rw [List.mem_append, not_or, List.mem_singleton]
        exact ⟨hout, hne⟩
      · exact Or.inr hnew

lemma Progress.of_unknown (h : Progress e s t layout names) (hname : d.name ∉ s.outputs) :
    Progress e s t layout (names ++ [d.name]) := by
  refine ⟨h.kin, h.width, h.height, h.regular, fun c hc hout => ?_, fun c hc => ?_⟩
  · exact h.old c hc fun hmem => hout (List.mem_append_left _ hmem)
  · rcases h.new c hc with ⟨hold, hout⟩ | hnew
    · refine Or.inl ⟨hold, ?_⟩
      rw [List.mem_append, not_or, List.mem_singleton]
      have hknown := h.regular.known c hc
      rw [h.kin.outputs] at hknown
      exact ⟨hout, fun heq => hname (heq ▸ hknown)⟩
    · exact Or.inr hnew

lemma Progress.applyEntry (h : Progress e s t layout names) (hd : d ∈ layout) (hsupported : s.Supported layout)
    (hsize : d.isActive = .yes → 0 < d.frame.width ∧ 0 < d.frame.height) :
    if s.Placed e d ∧ ¬d.frame.Fits s.server.width s.server.height then
      (OSEScreen.applyEntry e t d).server.rejected ≠ []
    else Progress e s (OSEScreen.applyEntry e t d) layout (names ++ [d.name]) := by
  by_cases hname : d.name ∈ s.outputs
  · have hname' : d.name ∈ t.outputs := h.kin.outputs.symm ▸ hname
    by_cases hplaced : s.Placed e d
    · have hmode := hsupported d hd hplaced.2.1
      rw [← h.kin.modes] at hmode
      obtain ⟨c, hout, hframe, hserver⟩ :=
        server_applyEntry_on (h.kin.placed_iff.mpr hplaced) (hsize hplaced.2.1) hmode
      by_cases hfits : d.frame.Fits s.server.width s.server.height
      · rw [if_neg fun hbad => hbad.2 hfits]
        have hfits' : d.frame.Fits t.server.width t.server.height := by rwa [h.width, h.height]
        rcases hserver with hset | ⟨hsame, hc⟩
        · refine h.next (kin_applyEntry e t d) hd hname (some c) (v := c :: t.server.others d.name) ?_ ?_ ?_
          · rw [hset, Server.setCrtcConfig, ← hout]
            exact if_pos (show c.frame.Fits t.server.width t.server.height from hframe ▸ hfits')
          · intro c'
            rw [List.mem_cons, mem_others, Option.mem_some_iff, eq_comm]
          · rintro c' hc'
            obtain rfl := Option.some.inj hc'
            exact ⟨hout, hplaced, hframe, hfits'⟩
        · refine h.next (kin_applyEntry e t d) hd hname (some c) (v := t.server.crtcs) (by rw [hsame]) ?_ ?_
          · intro c'
            rw [Option.mem_some_iff]
            refine ⟨fun hc' => ?_, ?_⟩
            · by_cases heq : c'.output = d.name
              · exact Or.inl (h.regular.single c hc c' hc' (hout.trans heq.symm))
              · exact Or.inr ⟨hc', heq⟩
            · rintro (rfl | ⟨hc', _⟩)
              · exact hc
              · exact hc'
          · rintro c' hc'
            obtain rfl := Option.some.inj hc'
            exact ⟨hout, hplaced, hframe, hfits'⟩
      · rw [if_pos ⟨hplaced, hfits⟩]
        have hfits' : ¬c.frame.Fits t.server.width t.server.height := by rwa [hframe, h.width, h.height]
        rcases hserver with hset | ⟨_, hc⟩
        · rw [hset, Server.setCrtcConfig, if_neg (show ¬(⟨c.output, c.mode, c.x, c.y⟩ : CRTC).frame.Fits _ _ from hfits')]
          simp
        · exact (hfits' (h.regular.inside c hc)).elim
    · rw [if_neg fun hbad => hplaced hbad.1]
      refine h.next (kin_applyEntry e t d) hd hname none
        (server_applyEntry_off hname' fun hp => hplaced (h.kin.placed_iff.mp hp)) ?_ ?_
      · intro c
        simp [mem_others]
      · rintro c hc
        cases hc
  · rw [if_neg fun hbad => hname hbad.1.1, applyEntry_unknown (h.kin.outputs.symm ▸ hname)]
    exact h.of_unknown hname

lemma Progress.foldl (h : Progress e s t layout names) (hsupported : s.Supported layout)
    (hsize : ∀ d ∈ layout, d.isActive = .yes → 0 < d.frame.width ∧ 0 < d.frame.height) {l : List Entry}
    (hl : ∀ d ∈ l, d ∈ layout) :
    if ∀ d ∈ l, s.Placed e d → d.frame.Fits s.server.width s.server.height then
      Progress e s (l.foldl (OSEScreen.applyEntry e) t) layout (names ++ l.map (·.name))
    else (l.foldl (OSEScreen.applyEntry e) t).server.rejected ≠ [] := by
  induction l generalizing t names with
  | nil => simpa using h
  | cons d l ih =>
    have hd : d ∈ layout := hl d List.mem_cons_self
    have hstep := h.applyEntry hd hsupported (hsize d hd)
    have hrest : ∀ d' ∈ l, d' ∈ layout := fun d' hd' => hl d' (List.mem_cons_of_mem d hd')
    rw [List.foldl_cons, List.map_cons]
    by_cases hbad : s.Placed e d ∧ ¬d.frame.Fits s.server.width s.server.height
    · rw [if_pos hbad] at hstep
      rw [if_neg fun hall => hbad.2 (hall d List.mem_cons_self hbad.1)]
      exact fun hnil => hstep (List.prefix_nil.mp (hnil ▸ rejected_foldl e _ l))
    · rw [if_neg hbad] at hstep
      have hfits : s.Placed e d → d.frame.Fits s.server.width s.server.height := by tauto
      have hall : (∀ d' ∈ d :: l, s.Placed e d' → d'.frame.Fits s.server.width s.server.height) ↔
          ∀ d' ∈ l, s.Placed e d' → d'.frame.Fits s.server.width s.server.height := by
        rw [List.forall_mem_cons]
        exact ⟨And.right, fun hr => ⟨hfits, hr⟩⟩
      rw [if_congr hall rfl rfl]
      simpa only [List.append_assoc, List.singleton_append] using ih hstep hrest

lemma Regular.progress (h : s.Regular) (e : Surroundings) (layout : List Entry) : Progress e s s layout [] :=
  ⟨.refl s, rfl, rfl, h, fun _ hc _ => hc, fun _ hc => Or.inl ⟨hc, List.not_mem_nil⟩⟩

end Loop

section Applying

/-- The screen in front of the loop, and behind it. -/
def bigger (s : OSEScreen) (layout : List Entry) : OSEScreen :=
  if s.Grows layout then s.setScreenSize (sizeInPixelsForLayout layout).1 (sizeInPixelsForLayout layout).2 else s

def resized (e : Surroundings) (s : OSEScreen) (layout : List Entry) : OSEScreen :=
  let placed := layout.foldl (applyEntry e) (s.bigger layout)
  if s.Shrinks layout then
    placed.setScreenSize (sizeInPixelsForLayout layout).1 (sizeInPixelsForLayout layout).2 else placed

lemma applyDisplayLayout_valid (hvalid : s.validateLayout e layout = true) :
    s.applyDisplayLayout e layout = { s.resized e layout with
      width := (sizeInPixelsForLayout layout).1, height := (sizeInPixelsForLayout layout).2 } :=
  if_pos hvalid

lemma respectsServer_iff (hvalid : s.validateLayout e layout = true) :
    RespectsServer e s layout ↔ (s.resized e layout).server.rejected = [] ∧
      ((s.resized e layout).server.width, (s.resized e layout).server.height) = sizeInPixelsForLayout layout := by
  simp only [RespectsServer, applyDisplayLayout_valid hvalid, and_true]

lemma size_pos (hvalid : s.validateLayout e layout = true) (hd : d ∈ layout) (hactive : d.isActive = .yes) :
    0 < d.frame.width ∧ 0 < d.frame.height := by
  have h := List.all_eq_true.mp hvalid d hd
  simp only [hactive, decide_true, Bool.true_and, Bool.and_eq_true, Bool.not_eq_true', Bool.or_eq_false_iff,
    decide_eq_false_iff_not, not_le] at h
  exact h.1.2

variable (hregular : s.Regular) (hvalid : s.validateLayout e layout = true) (hsupported : s.Supported layout)

include hregular hvalid hsupported

lemma respectsServer_of_grows (hgrows : s.Grows layout) : RespectsServer e s layout ↔ Applicable e s layout := by
  have hshrinks : ¬s.Shrinks layout := by
    simp only [Grows, Shrinks] at hgrows ⊢
    omega
  rw [respectsServer_iff hvalid, resized, if_neg hshrinks, bigger, if_pos hgrows]
  set w := (sizeInPixelsForLayout layout).1
  set h := (sizeInPixelsForLayout layout).2
  by_cases hgrowth : ∀ c ∈ s.server.crtcs, c.frame.Fits w h
  · have hserver := server_setScreenSize hgrowth
    have hregular' : (s.setScreenSize w h).Regular :=
      ⟨by rwa [hserver], by rw [hserver]; exact hregular.known, by rw [hserver]; exact hregular.single,
        by rw [hserver]; exact hregular.accepted⟩
    have hloop := (hregular'.progress e layout).foldl hsupported (fun d hd => size_pos hvalid hd) fun d hd => hd
    rw [hserver] at hloop
    split at hloop
    · next hplaced =>
      refine ⟨fun _ => ⟨fun _ => hgrowth, fun d hd hp => ?_, fun hs => (hshrinks hs).elim, Or.inl hgrows⟩, fun _ => ?_⟩
      · rw [if_pos hgrows]
        exact hplaced d hd hp
      · refine ⟨hloop.regular.accepted, ?_⟩
        rw [hloop.width, hloop.height, hserver]
    · next hplaced =>
      refine ⟨fun hr => (hloop hr.1).elim, fun ha => (hplaced fun d hd hp => ?_).elim⟩
      simpa only [if_pos hgrows] using ha.placed d hd hp
  · have hrejected : (s.setScreenSize w h).server.rejected ≠ [] := fun hnil =>
      hgrowth ((rejected_setScreenSize s w h).mp hnil).2
    refine ⟨fun hr => ?_, fun ha => (hgrowth (ha.growth hgrows)).elim⟩
    exact (hrejected (List.prefix_nil.mp (hr.1 ▸ rejected_foldl e _ layout))).elim

lemma respectsServer_of_not_grows (hgrows : ¬s.Grows layout) :
    RespectsServer e s layout ↔ Applicable e s layout := by
  rw [respectsServer_iff hvalid, resized, bigger, if_neg hgrows]
  have hloop := (hregular.progress e layout).foldl hsupported (fun d hd => size_pos hvalid hd) fun d hd => hd
  by_cases hplaced : ∀ d ∈ layout, s.Placed e d → d.frame.Fits s.server.width s.server.height
  · rw [if_pos hplaced, List.nil_append] at hloop
    have happlicable : Applicable e s layout ↔ (s.Shrinks layout → ∀ c ∈ s.server.crtcs,
        c.output ∉ layout.map (·.name) →
          c.frame.Fits (sizeInPixelsForLayout layout).1 (sizeInPixelsForLayout layout).2) ∧
        (s.Shrinks layout ∨ (s.server.width, s.server.height) = sizeInPixelsForLayout layout) := by
      refine ⟨fun ha => ⟨ha.shrinking, ha.size.resolve_left hgrows⟩, fun ⟨hshrinking, hsize⟩ => ?_⟩
      refine ⟨fun hg => (hgrows hg).elim, fun d hd hp => ?_, hshrinking, Or.inr hsize⟩
      rw [if_neg hgrows]
      exact hplaced d hd hp
    rw [happlicable]
    by_cases hshrinks : s.Shrinks layout
    · rw [if_pos hshrinks, rejected_setScreenSize]
      refine ⟨fun ⟨⟨_, hfits⟩, _⟩ => ⟨fun _ c hc hout => hfits c (hloop.old c hc hout), Or.inl hshrinks⟩,
        fun ⟨hshrinking, _⟩ => ?_⟩
      have hfits : ∀ c ∈ (layout.foldl (applyEntry e) s).server.crtcs,
          c.frame.Fits (sizeInPixelsForLayout layout).1 (sizeInPixelsForLayout layout).2 := by
        intro c hc
        rcases hloop.new c hc with ⟨hold, hout⟩ | ⟨d, hd, hp, hframe⟩
        · exact hshrinking hshrinks c hold hout
        · rw [hframe]
          exact fits_newSize (hplaced d hd hp) hd hp.2.1
      exact ⟨⟨hloop.regular.accepted, hfits⟩, by rw [server_setScreenSize hfits]⟩
    · rw [if_neg hshrinks, hloop.width, hloop.height]
      exact ⟨fun hr => ⟨fun hs => (hshrinks hs).elim, Or.inr hr.2⟩,
        fun hr => ⟨hloop.regular.accepted, hr.2.resolve_left hshrinks⟩⟩
  · rw [if_neg hplaced] at hloop
    refine ⟨fun hr => ?_, fun ha => (hplaced fun d hd hp => ?_).elim⟩
    · refine (hloop ?_).elim
      have hnil := hr.1
      split at hnil
      · exact ((rejected_setScreenSize _ _ _).mp hnil).1
      · exact hnil
    · simpa only [if_neg hgrows] using ha.placed d hd hp

theorem respectsServer_iff_applicable : RespectsServer e s layout ↔ Applicable e s layout := by
  by_cases hgrows : s.Grows layout
  · exact respectsServer_of_grows hregular hvalid hsupported hgrows
  · exact respectsServer_of_not_grows hregular hvalid hsupported hgrows

end Applying

section TwoMonitors

def monitor (id : UniqueID) (frame : Frame) : OSEDisplay :=
  ⟨some id, true, false, [⟨1, 1920, 1080⟩, ⟨2, 1280, 720⟩], [⟨1920, 1080, 60⟩], frame, .zero, ⟨1920, 1080, 60⟩⟩

/-- Two monitors of the same kind; the first one is on. -/
lemma nodup_monitors : ["DP-1", "DP-2"].Nodup := by decide

def twoMonitors : OSEScreen where
  outputs := ["DP-1", "DP-2"]
  nodup := nodup_monitors
  display := fun name => if name = "DP-1" then monitor [1] ⟨0, 0, 1920, 1080⟩ else monitor [1, 2] .zero
  width := 1920
  height := 1080
  server := ⟨1920, 1080, [⟨"DP-1", ⟨1, 1920, 1080⟩, 0, 0⟩], []⟩

def desk : Surroundings := ⟨fun id => id.elim 0 List.length, fun _ layout => layout, false⟩

def monitorEntry (id : UniqueID) (name : String) (frame : Frame) : Entry := ⟨some id, name, frame, 60, .yes, true⟩

lemma regular_twoMonitors : twoMonitors.Regular :=
  ⟨by decide, by decide, by decide, rfl⟩

theorem smaller_respectsServer :
    RespectsServer desk twoMonitors [monitorEntry [1] "DP-1" ⟨0, 0, 1280, 720⟩] :=
  (respectsServer_iff_applicable regular_twoMonitors (by decide) (by unfold Supported; decide)).mpr
    ⟨by decide, by decide, by decide, by decide⟩

/-- The screen becomes wider but not higher: the second rectangle is outside, and the screen stays as it was. -/
theorem sideBySide_rejected :
    twoMonitors.Regular ∧
      twoMonitors.validateLayout desk [monitorEntry [1] "DP-1" ⟨0, 0, 1920, 1080⟩,
        monitorEntry [1, 2] "DP-2" ⟨1920, 0, 1920, 1080⟩] = true ∧
      twoMonitors.Supported [monitorEntry [1] "DP-1" ⟨0, 0, 1920, 1080⟩,
        monitorEntry [1, 2] "DP-2" ⟨1920, 0, 1920, 1080⟩] ∧
      ¬RespectsServer desk twoMonitors [monitorEntry [1] "DP-1" ⟨0, 0, 1920, 1080⟩,
        monitorEntry [1, 2] "DP-2" ⟨1920, 0, 1920, 1080⟩] :=
  ⟨regular_twoMonitors, by decide, by unfold Supported; decide,
    by unfold RespectsServer; decide⟩

end TwoMonitors

end Xperimentum.SystemKit.OSEScreen
