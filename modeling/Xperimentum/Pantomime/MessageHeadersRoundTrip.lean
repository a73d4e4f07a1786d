import Xperimentum.Pantomime.MessageHeaders

/-! No message keeps its id: it is written in angle brackets, and they are read back as part of it. -/

namespace Xperimentum.Pantomime.MessageHeaders

open EncodedWords

def headerLines (b : Bytes) : List Bytes := (unfold b).splitOn 10

lemma headerLines_break (a : Bytes) {b : Bytes} (hb : StartsField b) :
    headerLines (a ++ 10 :: b) = headerLines a ++ headerLines b := by
  rw [headerLines, unfold_break a hb, List.splitOn_append_cons_self]
  rfl

/-- A header line begins with its name. -/
def Named (l : Bytes) : Prop := ∃ c ∈ l.head?, c ≠ 32 ∧ c ≠ 9 ∧ c ≠ 10

lemma Named.startsField {l : Bytes} (h : Named l) (b : Bytes) : StartsField (l ++ b) := by
  obtain ⟨c, hc, hspace, htab, -⟩ := h
  cases l with
  | nil => cases hc
  | cons d l =>
    cases hc
    rintro c ⟨⟩
    exact ⟨hspace, htab⟩

lemma headerLines_single {l : Bytes} (h : 10 ∉ unfold l) : headerLines l = [unfold l] :=
  List.splitOn_eq_singleton h

lemma splitOn_head (c : UInt8) (hc : c ≠ 10) (b : Bytes) : ∃ l ls, (c :: b).splitOn 10 = (c :: l) :: ls := by
  rw [List.splitOn_cons_eq_if_modifyHead, if_neg (by simpa using hc)]
  cases h : b.splitOn 10 with
  | nil => exact absurd h (List.splitOn_ne_nil 10 b)
  | cons l ls => exact ⟨l, ls, rfl⟩

lemma headerLines_unnamed {b : Bytes} (h : b = [] ∨ b.head? = some 10) : ∃ l ∈ headerLines b, ¬Named l := by
  have hnil : ¬Named [] := by
    rintro ⟨c, hc, -⟩
    cases hc
  rcases b with - | ⟨c, b⟩
  · exact ⟨[], List.mem_cons_self, hnil⟩
  · obtain rfl : c = 10 := by simpa using h
    cases b with
    | nil => exact ⟨[], List.mem_cons_self, hnil⟩
    | cons d b =>
      by_cases hd : d = 32 ∨ d = 9
      · have hten : d ≠ 10 := by
          rcases hd with rfl | rfl <;> decide
        obtain ⟨l, ls, hl⟩ := splitOn_head d hten (unfold b)
        refine ⟨d :: l, ?_, ?_⟩
        · rw [headerLines, unfold, if_pos ⟨rfl, hd⟩, unfold_cons hten, hl]
          exact List.mem_cons_self
        · rintro ⟨x, hx, hspace, htab, -⟩
          cases hx
          exact hd.elim hspace htab
      · refine ⟨[], ?_, hnil⟩
        rw [headerLines, unfold, if_neg (fun h => hd h.2)]
        exact List.mem_cons_self

lemma startsField_fields {fields : List Bytes} (hnamed : ∀ f ∈ fields, Named f) {b : Bytes} (hb : StartsField b) :
    StartsField (fields.flatMap (· ++ [10]) ++ b) := by
  cases fields with
  | nil => exact hb
  | cons f fields =>
    rw [List.flatMap_cons, List.append_assoc, List.append_assoc]
    exact (hnamed f List.mem_cons_self).startsField _

lemma headerLines_fields {fields : List Bytes} (hnamed : ∀ f ∈ fields, Named f) {b : Bytes} (hb : StartsField b) :
    headerLines (fields.flatMap (· ++ [10]) ++ b) = fields.flatMap headerLines ++ headerLines b := by
  induction fields with
  | nil => rfl
  | cons f fields ih =>
    have hrest : ∀ g ∈ fields, Named g := fun g hg => hnamed g (List.mem_cons_of_mem _ hg)
    calc headerLines ((f :: fields).flatMap (· ++ [10]) ++ b)
      _ = headerLines (f ++ 10 :: (fields.flatMap (· ++ [10]) ++ b)) := by simp
      _ = headerLines f ++ (fields.flatMap headerLines ++ headerLines b) := by
          rw [headerLines_break f (startsField_fields hrest hb), ih hrest]
      _ = (f :: fields).flatMap headerLines ++ headerLines b := by simp

section Section

variable {s t content P R : Bytes}

lemma startsField_blank {b : Bytes} (h : b = [] ∨ b.head? = some 10) : StartsField b := by
  rintro c hc
  rcases h with rfl | h
  · cases hc
  · obtain rfl : 10 = c := Option.some.inj (h.symm.trans hc)
    exact ⟨by decide, by decide⟩

lemma section_continues (hP : ∀ l ∈ headerLines P, Named l) (hR : R.head? ≠ some 10)
    (h : s ++ 10 :: 10 :: content = P ++ 10 :: R) :
    ∃ t, s = P ++ 10 :: t ∧ R = t ++ 10 :: 10 :: content := by
  rcases List.append_eq_append_iff.mp h with ⟨u, hP', hu⟩ | ⟨u, hs, hu⟩
  · exfalso
    cases u with
    | nil =>
      obtain ⟨-, hR'⟩ := List.cons.inj hu
      exact hR (by rw [← hR']; rfl)
    | cons c u =>
      obtain ⟨rfl, hrest⟩ := List.cons.inj hu
      have hhead : u = [] ∨ u.head? = some 10 := by
        cases u with
        | nil => exact Or.inl rfl
        | cons d u => exact Or.inr (congrArg List.head? hrest).symm
      obtain ⟨l, hl, hnot⟩ := headerLines_unnamed hhead
      refine hnot (hP l ?_)
      rw [hP', headerLines_break s (startsField_blank hhead)]
      exact List.mem_append_right _ hl
  · cases u with
    | nil =>
      obtain ⟨-, hR'⟩ := List.cons.inj hu
      exact absurd (by rw [hR']; rfl) hR
    | cons c u =>
      obtain ⟨rfl, hrest⟩ := List.cons.inj hu
      exact ⟨u, hs, hrest⟩

lemma section_lines {T : Bytes} (hT : T ++ 10 :: content = t ++ 10 :: 10 :: R) (hle : t.length ≤ T.length) :
    headerLines t ⊆ headerLines T := by
  rcases List.append_eq_append_iff.mp hT with ⟨u, ht, hu⟩ | ⟨u, hT', hu⟩
  · obtain rfl : u = [] := by
      have := congrArg List.length ht
      rw [List.length_append] at this
      exact List.length_eq_zero_iff.mp (by omega)
    rw [ht, List.append_nil]
    exact List.Subset.refl _
  · cases u with
    | nil =>
      rw [hT', List.append_nil]
      exact List.Subset.refl _
    | cons c u =>
      obtain ⟨rfl, hrest⟩ := List.cons.inj hu
      have hhead : u = [] ∨ u.head? = some 10 := by
        cases u with
        | nil => exact Or.inl rfl
        | cons d u => exact Or.inr (congrArg List.head? hrest).symm
      rw [hT', headerLines_break t (startsField_blank hhead)]
      exact List.subset_append_left _ _

end Section

section Values

variable {F : Foundation} {L : LossyASCII} {globallyUniqueID : Str} {m : Message} {v v' : Values} {l : Bytes}

lemma hasKeyword_append {keyword : String} {a : Bytes} (h : keyword.length ≤ a.length) (b : Bytes) :
    hasKeyword keyword (a ++ b) = hasKeyword keyword a := by
  rw [hasKeyword, List.take_append_of_le_length h]
  rfl

lemma parseHeader_messageID (hl : hasKeyword "Message-ID" l = false) (h : parseHeader F v l = some v') :
    v'.messageID = v.messageID := by
  rw [parseHeader] at h
  split_ifs at h with _ hid
  · obtain rfl := Option.some.inj h
    simp only [parseInReplyTo]
    split
    · rfl
    · split <;> rfl
  · exact absurd hid (Bool.not_eq_true _ ▸ hl)
  · rw [parseOrganization] at h
    split_ifs at h
    · obtain rfl := Option.some.inj h
      rfl
    · obtain ⟨w, -, rfl⟩ := Option.map_eq_some_iff.mp h
      rfl
  · rw [parseSubject] at h
    split_ifs at h
    · obtain rfl := Option.some.inj h
      rfl
    · simp only at h
      split at h
      · obtain rfl := Option.some.inj h
        rfl
      · split_ifs at h
        obtain rfl := Option.some.inj h
        rfl
  · obtain rfl := Option.some.inj h
    rfl

lemma foldlM_messageID {ls : List Bytes} (hls : ∀ l ∈ ls, hasKeyword "Message-ID" l = false)
    (h : ls.foldlM (parseHeader F) v = some v') : v'.messageID = v.messageID := by
  induction ls generalizing v with
  | nil =>
    obtain rfl := Option.some.inj h
    rfl
  | cons l ls ih =>
    rw [List.foldlM_cons] at h
    obtain ⟨u, hu, hrest⟩ := Option.bind_eq_some_iff.mp h
    rw [ih (fun k hk => hls k (List.mem_cons_of_mem _ hk)) hrest, parseHeader_messageID (hls l List.mem_cons_self) hu]

lemma parseHeader_messageIDField (v w : Values) :
    parseHeader F v (messageIDField L globallyUniqueID w) =
      some { v with messageID := some (asciiUnits (60 :: L.convert (w.messageID.getD globallyUniqueID) ++ [62])) } := by
  generalize hid : w.messageID.getD globallyUniqueID = id
  have hfield : messageIDField L globallyUniqueID w = ascii "Message-ID: " ++ (60 :: L.convert id ++ [62]) := by
    rw [messageIDField, hid]
    simp [ascii]
  have htrim : dataByTrimmingWhiteSpaces (60 :: L.convert id ++ [62]) = 60 :: L.convert id ++ [62] := by
    simp [dataByTrimmingWhiteSpaces, isBlankByte]
  have hascii : (60 :: L.convert id ++ [62]).all (· < 128) = true := by
    have hall := L.is_ascii id
    simpa using hall
  have hreply : ¬hasKeyword "In-Reply-To" (ascii "Message-ID: ") = true := by decide
  have hkey : hasKeyword "Message-ID" (ascii "Message-ID: ") = true := by decide
  rw [hfield, parseHeader, hasKeyword_append (by decide), hasKeyword_append (by decide), if_neg hreply, if_pos hkey,
    parseMessageID, if_neg (by simp [ascii])]
  have hdrop : (ascii "Message-ID: " ++ (60 :: L.convert id ++ [62])).drop 12 = 60 :: L.convert id ++ [62] := rfl
  rw [hdrop, htrim, asciiText, if_pos hascii]

/-- No line that begins with the keyword begins in the text behind its first line. -/
def Quiet (text : Bytes) : Prop := ∀ l ∈ headerLines text, hasKeyword "Message-ID" l = false

instance (text : Bytes) : Decidable (Quiet text) := inferInstanceAs (Decidable (∀ l ∈ headerLines text, _))

lemma quiet_single {name : String} {text : Bytes} (hlen : "Message-ID".length ≤ (ascii name).length)
    (hkey : hasKeyword "Message-ID" (ascii name) = false) (hfree : 10 ∉ ascii name) (htext : 10 ∉ unfold text) :
    Quiet (ascii name ++ text) := by
  intro l hl
  rw [headerLines, unfold_append hfree, List.splitOn_eq_singleton (List.not_mem_append hfree htext)] at hl
  rw [List.mem_singleton.mp hl, hasKeyword_append hlen, hkey]

/-- The four values that are read back, and the lines that are written for them again, are the same. -/
def KeepsValues (F : Foundation) (L : LossyASCII) (globallyUniqueID : Str) (m : Message) : Prop :=
  ∃ v, initWithData F (dataValue F L globallyUniqueID m) = some v ∧ v = m.toValues ∧
    fourLines F L globallyUniqueID v = fourLines F L globallyUniqueID m.toValues

structure OnLines (v : Values) : Prop where
  subject : ∀ w ∈ v.subject, 10 ∉ w
  messageID : ∀ w ∈ v.messageID, 10 ∉ w
  organization : ∀ w ∈ v.organization, 10 ∉ w
  inReplyTo : ∀ w ∈ v.inReplyTo, 10 ∉ w

lemma named_ascii {name : String} (h : Named (ascii name)) (text : Bytes) : Named (ascii name ++ text) := by
  obtain ⟨c, hc, hne⟩ := h
  cases hn : ascii name with
  | nil =>
    rw [hn] at hc
    cases hc
  | cons d b =>
    rw [hn] at hc
    exact ⟨c, hc, hne⟩

instance (l : Bytes) : Decidable (Named l) :=
  match l with
  | [] => isFalse (by rintro ⟨c, hc, -⟩; cases hc)
  | c :: _ => decidable_of_iff (c ≠ 32 ∧ c ≠ 9 ∧ c ≠ 10) ⟨fun h => ⟨c, rfl, h⟩, by rintro ⟨d, hd, h⟩; cases hd; exact h⟩

lemma named_later : ∀ f ∈ laterFields F L m, Named f := by
  have hoptional : ∀ {name : String} {text : Option Bytes} {f : Bytes}, Named (ascii name) →
      f ∈ optionalField name text → Named f := by
    intro name text f hname hf
    obtain ⟨b, -, rfl⟩ := Option.map_eq_some_iff.mp (Option.mem_toList.mp hf)
    exact named_ascii hname b
  intro f hf
  simp only [laterFields, recipientFields, List.mem_append, List.mem_singleton] at hf
  rcases hf with ((((rfl | ((((rfl | hf) | hf) | hf) | hf)) | hf) | hf) | hf) | hf
  · decide
  · exact named_ascii (by decide) _
  · exact hoptional (by decide) hf
  · exact hoptional (by decide) hf
  · exact hoptional (by decide) hf
  · exact hoptional (by decide) hf
  · rw [organizationField] at hf
    split at hf
    · rw [List.mem_singleton.mp hf]
      exact named_ascii (by decide) _
    · cases hf
  · rw [inReplyToField] at hf
    split at hf
    · rw [List.mem_singleton.mp hf]
      exact named_ascii (by decide) _
    · cases hf
  · obtain ⟨h, hkey, rfl⟩ := List.mem_map.mp hf
    have hextra := (List.mem_filter.mp hkey).2
    obtain ⟨key, text⟩ := h
    cases key with
    | nil => simp [isExtraHeader, hasCPrefix, ascii] at hextra
    | cons c key =>
      refine ⟨c, rfl, ?_, ?_, ?_⟩ <;> rintro rfl
      · simp [isExtraHeader, hasCPrefix, ascii, lower] at hextra
      · simp [isExtraHeader, hasCPrefix, ascii, lower] at hextra
      · simp [isExtraHeader, hasCPrefix, ascii, lower] at hextra
  · obtain ⟨text, -, rfl⟩ := List.mem_map.mp hf
    exact named_ascii (by decide) _

lemma quiet_later (hcharset : ∀ w, 10 ∉ F.charset w) (hv : OnLines m.toValues)
    (hother : ∀ text ∈ recipientFields m ++ extraFields m ++ partFields m, Quiet text) :
    ∀ f ∈ laterFields F L m, Quiet f := by
  intro f hf
  simp only [laterFields, List.mem_append, List.mem_singleton] at hf
  rcases hf with ((((rfl | hf) | hf) | hf) | hf) | hf
  · unfold Quiet headerLines
    rw [unfold_free (by decide)]
    decide
  · exact hother f (List.mem_append_left _ (List.mem_append_left _ hf))
  · rw [organizationField] at hf
    split at hf
    · rename_i w hw
      rw [List.mem_singleton.mp hf]
      exact quiet_single (by decide) (by decide) (by decide)
        (lf_not_mem_unfold_encodeWord (hcharset w) (hv.organization w hw) 13)
    · cases hf
  · rw [inReplyToField] at hf
    split at hf
    · rename_i w hw
      rw [List.mem_singleton.mp hf]
      have hfree := L.on_line w (hv.inReplyTo w hw)
      exact quiet_single (by decide) (by decide) (by decide) (by rwa [unfold_free hfree])
    · cases hf
  · exact hother f (List.mem_append_left _ (List.mem_append_right _ hf))
  · exact hother f (List.mem_append_right _ hf)

lemma earlier_lines (hcharset : ∀ w, 10 ∉ F.charset w) (hdate : 10 ∉ m.date) (hv : OnLines m.toValues) :
    (∀ f ∈ earlierFields F m, Named f) ∧ ∀ l ∈ (earlierFields F m).flatMap headerLines, Named l := by
  have hsingle : ∀ {name : String} {text : Bytes}, Named (ascii name) → 10 ∉ ascii name → 10 ∉ unfold text →
      ∀ l ∈ headerLines (ascii name ++ text), Named l := by
    intro name text hname hfree htext l hl
    rw [headerLines, unfold_append hfree, List.splitOn_eq_singleton (List.not_mem_append hfree htext)] at hl
    rw [List.mem_singleton.mp hl]
    exact named_ascii hname _
  have hsubject : ∀ f ∈ subjectField F m.toValues, Named f ∧ ∀ l ∈ headerLines f, Named l := by
    intro f hf
    rw [subjectField] at hf
    split at hf
    · rename_i w hw
      split_ifs at hf
      · cases hf
      · rw [List.mem_singleton.mp hf]
        exact ⟨named_ascii (by decide) _, hsingle (by decide) (by decide)
          (lf_not_mem_unfold_encodeWord (hcharset w) (hv.subject w hw) 8)⟩
    · cases hf
  have hfield : ∀ f ∈ earlierFields F m, Named f ∧ ∀ l ∈ headerLines f, Named l := by
    intro f hf
    rcases List.mem_cons.mp hf with rfl | hf
    · exact ⟨named_ascii (by decide) _, hsingle (by decide) (by decide) (by rwa [unfold_free hdate])⟩
    · exact hsubject f hf
  refine ⟨fun f hf => (hfield f hf).1, fun l hl => ?_⟩
  obtain ⟨f, hf, hmem⟩ := List.mem_flatMap.mp hl
  exact (hfield f hf).2 l hmem

lemma read_messageID (hcharset : ∀ w, 10 ∉ F.charset w) (hdate : 10 ∉ m.date) (hv : OnLines m.toValues)
    {id : Str} (hid : m.messageID = some id)
    (hother : ∀ text ∈ recipientFields m ++ extraFields m ++ partFields m, Quiet text)
    (h : initWithData F (dataValue F L globallyUniqueID m) = some v) :
    v.messageID = some (asciiUnits (60 :: L.convert id ++ [62])) := by
  obtain ⟨hnamed, hlines⟩ := earlier_lines hcharset hdate hv
  have hfree : 10 ∉ messageIDField L globallyUniqueID m.toValues := by
    rw [messageIDField, hid]
    exact List.not_mem_append (List.not_mem_append (by decide) (L.on_line id (hv.messageID id hid))) (by decide)
  have hidNamed : Named (messageIDField L globallyUniqueID m.toValues) := by
    rw [messageIDField, List.append_assoc]
    exact named_ascii (by decide) _
  set field := messageIDField L globallyUniqueID m.toValues
  set P := (earlierFields F m).flatMap (· ++ [10]) ++ field
  set T := (laterFields F L m).flatMap (· ++ [10])
  have hP : headerLines P = (earlierFields F m).flatMap headerLines ++ [field] := by
    have hstarts := hidNamed.startsField []
    rw [List.append_nil] at hstarts
    rw [headerLines_fields hnamed hstarts, headerLines_single (by rwa [unfold_free hfree]), unfold_free hfree]
  have hPNamed : ∀ l ∈ headerLines P, Named l := by
    intro l hl
    rw [hP] at hl
    rcases List.mem_append.mp hl with hl | hl
    · exact hlines l hl
    · rwa [List.mem_singleton.mp hl]
  have hdata : dataValue F L globallyUniqueID m = P ++ 10 :: (T ++ 10 :: m.content) := by
    simp [dataValue, P, T, field]
  obtain ⟨⟨s, c⟩, hfound, hset⟩ := Option.bind_eq_some_iff.mp h
  have hhead : (T ++ 10 :: m.content).head? = some 77 := rfl
  have hsplit := findCString_some hfound
  rw [List.append_assoc, hdata] at hsplit
  obtain ⟨t, rfl, hR⟩ := section_continues hPNamed (by rw [hhead]; decide) hsplit.symm
  have hstarts : StartsField t := by
    intro x hx
    have h77 : x = 77 := by
      rw [hR, List.head?_append, hx] at hhead
      exact Option.some.inj hhead
    rw [h77]
    exact ⟨by decide, by decide⟩
  have hlen : t.length ≤ T.length := by
    obtain ⟨T', hT'⟩ : ∃ T', T = T' ++ [10] := by
      rcases List.eq_nil_or_concat (laterFields F L m) with hnil | ⟨fields, f, hfields⟩
      · cases hnil
      · exact ⟨fields.flatMap (· ++ [10]) ++ f, by simp [T, hfields]⟩
    have hfirst := findCString_first hfound (show _ = (P ++ 10 :: T') ++ [10, 10] ++ m.content by rw [hdata, hT']; simp)
    rw [hT', List.length_append]
    simp only [List.length_append, List.length_cons] at hfirst
    omega
  have hquiet : ∀ l ∈ headerLines t, hasKeyword "Message-ID" l = false := by
    intro l hl
    have hmem := section_lines hR hlen hl
    have hT : headerLines T = (laterFields F L m).flatMap headerLines ++ [[]] := by
      have hnil : StartsField [] := fun c hc => by cases hc
      have hfields := headerLines_fields (@named_later F L m) hnil
      rwa [List.append_nil] at hfields
    rw [hT] at hmem
    rcases List.mem_append.mp hmem with hmem | hmem
    · obtain ⟨f, hf, hl⟩ := List.mem_flatMap.mp hmem
      exact quiet_later hcharset hv hother f hf l hl
    · rw [List.mem_singleton.mp hmem]
      rfl
  have hsection : (headerLines (P ++ 10 :: t)).takeWhile (· ≠ []) =
      (earlierFields F m).flatMap headerLines ++ field :: (headerLines t).takeWhile (· ≠ []) := by
    have hne : ∀ l ∈ (earlierFields F m).flatMap headerLines ++ [field], decide (l ≠ []) = true := by
      intro l hl
      rw [← hP] at hl
      obtain ⟨x, hx, -⟩ := hPNamed l hl
      rw [decide_eq_true_eq]
      rintro rfl
      cases hx
    rw [headerLines_break P hstarts, hP, List.takeWhile_append_of_pos hne, List.append_assoc, List.singleton_append]
  have hlong : (P ++ 10 :: (T ++ 10 :: m.content)).length ≠ 2 := by
    simp [P, earlierFields, ascii]
  rw [hdata, if_neg hlong, setHeadersFromData, if_neg (by simp), unfoldLines, if_neg (by simp)] at hset
  change ((headerLines (P ++ 10 :: t)).takeWhile (· ≠ [])).foldlM (parseHeader F) {} = some v at hset
  rw [hsection, List.foldlM_append] at hset
  obtain ⟨u, -, hu⟩ := Option.bind_eq_some_iff.mp hset
  rw [List.foldlM_cons, parseHeader_messageIDField] at hu
  have hkept := foldlM_messageID (fun l hl => hquiet l ((List.takeWhile_sublist _).subset hl)) hu
  rw [hkept, hid]
  rfl

/-- Whatever the message is, the id is not the same after it is written and read. -/
theorem messageID_not_kept (F : Foundation) (L : LossyASCII) (globallyUniqueID : Str) (m : Message) (id : Str)
    (hcharset : ∀ w, 10 ∉ F.charset w) (hdate : 10 ∉ m.date) (hv : OnLines m.toValues)
    (hid : m.messageID = some id)
    (hother : ∀ text ∈ recipientFields m ++ extraFields m ++ partFields m, Quiet text) :
    ¬KeepsValues F L globallyUniqueID m := by
  rintro ⟨v, hread, hsame, -⟩
  have hv' := read_messageID hcharset hdate hv hid hother hread
  rw [hsame, hid] at hv'
  have heq : id = asciiUnits (60 :: L.convert id ++ [62]) := Option.some.inj hv'
  have hascii : id.all (· < 128) = true := by
    rw [heq, List.all_eq_true]
    intro c hc
    obtain ⟨b, hb, rfl⟩ := List.mem_map.mp hc
    have hlt : b < 128 := by
      rcases List.mem_append.mp hb with hb | hb
      · rcases List.mem_cons.mp hb with rfl | hb
        · decide
        · exact L.is_ascii id b hb
      · rw [List.mem_singleton.mp hb]
        decide
    exact decide_eq_true (UInt16.lt_iff_toNat_lt.mpr (by simpa using UInt8.lt_iff_toNat_lt.mp hlt))
  have hlen := congrArg List.length heq
  rw [L.ascii_kept id hascii] at hlen
  simp only [asciiUnits, List.length_map, List.cons_append, List.length_cons, List.length_append] at hlen
  omega

end Values

section Sample

/-- A converter of ASCII. -/
def plain : Foundation where
  whitespace c := c = 32 || c = 9
  skipped c := c = 32 || 9 ≤ c && c ≤ 13
  charset _ := ascii "us-ascii"
  encode _ w := if w.all (· < 128) then some (w.map UInt16.toUInt8) else none
  decode _ := asciiText
  iso2022jp _ := none
  cString := asciiUnits

def questionMarks : LossyASCII where
  convert w := w.map fun c => if c < 128 then c.toUInt8 else 63
  ascii_kept w hw := List.map_congr_left fun c hc => if_pos (of_decide_eq_true (List.all_eq_true.mp hw c hc))
  is_ascii w c hc := by
    obtain ⟨x, -, rfl⟩ := List.mem_map.mp hc
    split_ifs with hx
    · have hlt : x.toNat < 128 := UInt16.lt_iff_toNat_lt.mp hx
      refine UInt8.lt_iff_toNat_lt.mpr ?_
      rw [UInt16.toNat_toUInt8]
      exact lt_of_le_of_lt (Nat.mod_le _ _) hlt
    · decide
  on_line w hw h := by
    obtain ⟨x, hx, heq⟩ := List.mem_map.mp h
    split_ifs at heq with hlt
    · have hten : x.toNat % 256 = 10 := congrArg UInt8.toNat heq
      have hsmall : x.toNat < 128 := UInt16.lt_iff_toNat_lt.mp hlt
      rw [UInt16.toNat_inj.mp (show x.toNat = (10 : UInt16).toNat by simp; omega)] at hx
      exact hw hx
    · exact absurd heq (by decide)

def text (s : String) : Str := asciiUnits (ascii s)

def greeting : Message where
  subject := some (text "Hi")
  messageID := some (text "2@x")
  organization := some (text "ACME")
  inReplyTo := some (text "<1@x>")
  date := ascii "Mon, 01 Jan 2024 00:00:00 +0000"
  theFrom := ascii "a@x"
  theTo := some (ascii "b@x")
  theCc := none
  theBcc := none
  replyTo := none
  headers := []
  part := [ascii "Type: text/plain"]
  content := ascii "Hello"

theorem messageID_not_kept_greeting : ¬KeepsValues plain questionMarks [] greeting := by
  refine messageID_not_kept plain questionMarks [] greeting (text "2@x")
    (fun _ => (by decide : 10 ∉ ascii "us-ascii")) (by decide)
    ⟨?_, ?_, ?_, ?_⟩ rfl ?_
  · rintro w ⟨⟩
    decide
  · rintro w ⟨⟩
    decide
  · rintro w ⟨⟩
    decide
  · rintro w ⟨⟩
    decide
  · decide

/-- `2@x` is written as `<2@x>` and read back as that. -/
theorem brackets_read_as_id :
    (initWithData plain (dataValue plain questionMarks [] greeting)).bind Values.messageID = some (text "<2@x>") ∧
      ¬KeepsValues plain questionMarks [] greeting := by
  have hread : initWithData plain (dataValue plain questionMarks [] greeting) =
      some { greeting.toValues with messageID := some (text "<2@x>") } := by decide +kernel
  refine ⟨by rw [hread]; rfl, ?_⟩
  rintro ⟨v, h, hv, -⟩
  rw [hread] at h
  have hid : some (text "<2@x>") = some (text "2@x") := congrArg Values.messageID ((Option.some.inj h).trans hv)
  exact absurd hid (by decide)

end Sample

end Xperimentum.Pantomime.MessageHeaders
