import Xperimentum.Pantomime.MailboxNames

/-! The names that modified UTF-7 gives back. -/

namespace Xperimentum.Pantomime.MailboxNames

open Lib

/-- What the two rewritings make of the UTF-7 text together. -/
@[grind =] def through (behind : UInt8) : Bool → Bytes → Bytes
  | escaped, [] => if escaped then [45] else []
  | escaped, c :: b =>
    if c = 43 then
      if b = [] ∧ escaped = false then (if behind = 45 then [43] else [38]) else 43 :: through behind true b
    else (if escaped && c = 44 then 47 else c) :: through behind (escaped && c ≠ 45) b

section Through

variable {behind : UInt8} {lossy : UInt16 → Bytes} {escaped : Bool} {b : Bytes}

lemma toUInt16_ne {c d : UInt8} (h : c ≠ d) : c.toUInt16 ≠ d.toUInt16 :=
  fun he => h (by rw [← UInt8.toUInt8_toUInt16 c, ← UInt8.toUInt8_toUInt16 d, he])

lemma toUInt16_lt {c : UInt8} (hc : c < 128) : c.toUInt16 < 128 := by
  rw [UInt16.lt_iff_toNat_lt, UInt8.toNat_toUInt16]
  exact UInt8.lt_iff_toNat_lt.mp hc

lemma restore_char {c : UInt8} (hc : c < 128) (hand : c ≠ 38) (s : List UInt16) :
    restore lossy false (c.toUInt16 :: s) = c :: restore lossy false s := by
  have h38 : c.toUInt16 ≠ 38 := toUInt16_ne hand
  rw [restore.eq_def]
  simp [h38, toUInt16_lt hc]

lemma restore_escaped {c : UInt8} (hc : c < 128) (hcomma : c ≠ 44) (hdash : c ≠ 45) (s : List UInt16) :
    restore lossy true (c.toUInt16 :: s) = c :: restore lossy true s := by
  have h44 : c.toUInt16 ≠ 44 := toUInt16_ne hcomma
  have h45 : c.toUInt16 ≠ 45 := toUInt16_ne hdash
  rw [restore.eq_def]
  simp [h44, h45, toUInt16_lt hc]

lemma restore_comma (s : List UInt16) : restore lossy true (44 :: s) = 47 :: restore lossy true s := by
  rw [restore.eq_def]
  simp

lemma restore_dash (s : List UInt16) : restore lossy true (45 :: s) = 45 :: restore lossy false s := by
  rw [restore.eq_def]
  simp

lemma restore_and_dash (s : List UInt16) : restore lossy false (38 :: 45 :: s) = 38 :: restore lossy false s := by
  rw [restore.eq_def]
  simp

lemma restore_and {next : UInt16} (hnext : next ≠ 45) (s : List UInt16) :
    restore lossy false (38 :: next :: s) = 43 :: restore lossy true (next :: s) := by
  rw [restore.eq_def]
  simp [hnext]

lemma modify_head (hne : b ≠ []) (hhead : b.headD behind ≠ 45) : ∃ c s, modify behind true b = c :: s ∧ c ≠ 45 := by
  cases b with
  | nil => exact absurd rfl hne
  | cons c b =>
    have hc : c ≠ 45 := hhead
    by_cases hslash : c = 47
    · exact ⟨44, modify behind true b, by simp [modify, hslash], by decide⟩
    · exact ⟨c, modify behind true b, by simp [modify, hslash, hc], hc⟩

lemma restore_modify (hb : ∀ c ∈ b, c < 128) :
    restore lossy escaped ((modify behind escaped b).map UInt8.toUInt16) = through behind escaped b := by
  induction b generalizing escaped with
  | nil =>
    cases escaped
    · rfl
    · simp [modify, restore, through]
  | cons c b ih =>
    have hc := hb c List.mem_cons_self
    have ih := fun e => @ih e fun x hx => hb x (List.mem_cons_of_mem c hx)
    cases escaped with
    | true =>
      by_cases hslash : c = 47
      · subst hslash
        have hm : modify behind true (47 :: b) = 44 :: modify behind true b := by simp [modify]
        rw [hm]
        exact (restore_comma _).trans (congrArg (47 :: ·) (ih true))
      · by_cases hdash : c = 45
        · subst hdash
          have hm : modify behind true (45 :: b) = 45 :: modify behind false b := by simp [modify]
          rw [hm]
          exact (restore_dash _).trans (congrArg (45 :: ·) (ih false))
        · have hm : modify behind true (c :: b) = c :: modify behind true b := by simp [modify, hslash, hdash]
          rw [hm, List.map_cons]
          by_cases hcomma : c = 44
          · subst hcomma
            exact (restore_comma _).trans (congrArg (47 :: ·) (ih true))
          · rw [restore_escaped hc hcomma hdash, ih]
            by_cases hplus : c = 43
            · subst hplus
              simp [through]
            · simp [through, hplus, hcomma, hdash]
    | false =>
      by_cases hand : c = 38
      · subst hand
        have hm : modify behind false (38 :: b) = 38 :: 45 :: modify behind false b := by simp [modify]
        rw [hm]
        exact (restore_and_dash _).trans (congrArg (38 :: ·) (ih false))
      · by_cases hplus : c = 43
        · subst hplus
          by_cases hhead : b.headD behind = 45
          · have hm : modify behind false (43 :: b) = 43 :: modify behind false b := by
              simpa [modify] using hhead
            rw [hm, List.map_cons, restore_char hc hand, ih]
            cases b with
            | nil =>
              have hbehind : behind = 45 := hhead
              simp [through, hbehind]
            | cons d b =>
              obtain rfl : d = 45 := hhead
              simp [through]
          · have hm : modify behind false (43 :: b) = 38 :: modify behind true b := by
              simpa [modify] using hhead
            rw [hm]
            by_cases hnil : b = []
            · subst hnil
              have hbehind : behind ≠ 45 := hhead
              rw [through, if_pos rfl, if_pos ⟨rfl, rfl⟩, if_neg hbehind]
              exact restore_and_dash []
            · obtain ⟨d, s, hs, hd⟩ := modify_head hnil hhead
              have hrest := ih true
              rw [hs] at hrest ⊢
              rw [through, if_pos rfl, if_neg fun h => hnil h.1, ← hrest]
              exact restore_and (toUInt16_ne hd) _
        · have hm : modify behind false (c :: b) = c :: modify behind false b := by simp [modify, hand, hplus]
          rw [hm, List.map_cons, restore_char hc hand, ih]
          simp [through, hplus]

end Through

/-- A UTF-7 text in pieces: a character that stands for itself, or a shifted sequence and whether a `-` closes it. -/
inductive Piece
  | char (c : UInt8)
  | group (us : List UInt16) (sextets : Bytes) (closed : Bool)

def Piece.bytes : Piece → Bytes
  | char c => [c]
  | group _ sextets closed => 43 :: (sextets ++ if closed then [45] else [])

def Piece.chars : Piece → List UInt16
  | char c => [c.toUInt16]
  | group us _ _ => us

def bytesOf (ps : List Piece) : Bytes := ps.flatMap Piece.bytes

def charsOf (ps : List Piece) : List UInt16 := ps.flatMap Piece.chars

def isBlank (c : UInt8) : Bool := c = 9 || c = 10 || c = 13

/-- A sequence that no `-` closes is followed by a blank. -/
def WellFormed : List Piece → Prop
  | [] => True
  | .char c :: ps => (isBlank c = true ∨ 32 ≤ c ∧ c ≤ 126) ∧ WellFormed ps
  | .group us sextets closed :: ps => UTF7.shifted sextets = some us ∧ (∀ c ∈ sextets, UTF7.isBase64 c = true) ∧
      (∀ u ∈ us, isPrintable u = false) ∧ (closed = false → ∃ c ps', ps = .char c :: ps' ∧ isBlank c = true) ∧ WellFormed ps

/-- Characters that the decoder does not take for themselves do not stand there, no comma and not the end is met while
the rewritings take the text for shifted; a `+` may be the last character then. -/
@[grind =] def Restorable : Bool → List Piece → Prop
  | escaped, [] => escaped = false
  | escaped, .char c :: ps =>
    if c = 43 then escaped = true ∧ ps = []
    else UTF7.isDirect c = true ∧ ¬(escaped = true ∧ c = 44) ∧ Restorable (escaped && c ≠ 45) ps
  | _, .group _ _ closed :: ps => Restorable (!closed) ps

section Pieces

variable {behind : UInt8} {escaped : Bool} {ps : List Piece} {c : UInt8} {us u : List UInt16} {sextets b : Bytes}

lemma bytesOf_char : bytesOf (.char c :: ps) = c :: bytesOf ps := rfl

lemma charsOf_char : charsOf (.char c :: ps) = c.toUInt16 :: charsOf ps := rfl

lemma bytesOf_group {closed : Bool} : bytesOf (.group us sextets closed :: ps) =
    43 :: (sextets ++ ((if closed then [45] else []) ++ bytesOf ps)) := by
  rw [bytesOf, List.flatMap_cons, Piece.bytes, List.cons_append, List.append_assoc]
  rfl

lemma charsOf_group {closed : Bool} : charsOf (.group us sextets closed :: ps) = us ++ charsOf ps := rfl

lemma bytesOf_ne_nil (h : ps ≠ []) : bytesOf ps ≠ [] := by
  cases ps with
  | nil => exact absurd rfl h
  | cons p ps =>
    cases p
    · exact List.cons_ne_nil _ _
    · rw [bytesOf_group]
      exact List.cons_ne_nil _ _

lemma through_plus (h : b ≠ [] ∨ escaped = true) : through behind escaped (43 :: b) = 43 :: through behind true b := by
  rw [through, if_pos rfl, if_neg]
  rintro ⟨hb, he⟩
  rcases h with h | h
  · exact h hb
  · rw [he] at h
    cases h

lemma through_char (hc : c ≠ 43) : through behind escaped (c :: b) =
    (if escaped && c = 44 then 47 else c) :: through behind (escaped && c ≠ 45) b := by
  rw [through, if_neg hc]

lemma ne_of_base64 (h : UTF7.isBase64 c = true) : c ≠ 44 ∧ c ≠ 45 := by
  refine ⟨?_, ?_⟩
  all_goals
    rintro rfl
    cases h

lemma through_sextets (hs : ∀ c ∈ sextets, UTF7.isBase64 c = true) :
    through behind true (sextets ++ b) = sextets ++ through behind true b := by
  induction sextets with
  | nil => rfl
  | cons c sextets ih =>
    have hc := ne_of_base64 (hs c List.mem_cons_self)
    have ih := ih fun x hx => hs x (List.mem_cons_of_mem c hx)
    rw [List.cons_append, List.cons_append, ← ih]
    by_cases hplus : c = 43
    · rw [hplus]
      exact through_plus (.inr rfl)
    · rw [through_char hplus]
      simp [hc.1, hc.2]

lemma isDirect_of_blank (h : isBlank c = true) : UTF7.isDirect c = true := by
  simp only [isBlank, Bool.or_eq_true, decide_eq_true_eq] at h
  rcases h with (rfl | rfl) | rfl <;> rfl

lemma blank_cases (h : isBlank c = true) : UTF7.isBase64 c = false ∧ c ≠ 43 ∧ c ≠ 44 ∧ c ≠ 45 := by
  simp only [isBlank, Bool.or_eq_true, decide_eq_true_eq] at h
  rcases h with (rfl | rfl) | rfl <;> decide

lemma decode_group {closed : Bool} (h : WellFormed (.group us sextets closed :: ps)) :
    UTF7.decode none (through behind escaped (bytesOf (.group us sextets closed :: ps))) =
      (UTF7.decode none (through behind (!closed) (bytesOf ps))).map (us ++ ·) := by
  obtain ⟨hv, hs, -, hopen, -⟩ := h
  have hne : sextets ≠ [] := UTF7.shifted_ne_nil hv
  rw [bytesOf_group, through_plus (.inl (by simp [hne])), through_sextets hs]
  cases closed with
  | true =>
    have hdash : through behind true (45 :: bytesOf ps) = 45 :: through behind false (bytesOf ps) := by
      rw [through_char (by decide)]
      simp
    exact (congrArg (fun b => UTF7.decode none (43 :: (sextets ++ b))) hdash).trans (UTF7.decode_closed hs hv)
  | false =>
    obtain ⟨c, ps', rfl, hc⟩ := hopen rfl
    obtain ⟨hbase, hplus, hcomma, hdash⟩ := blank_cases hc
    have hblank : through behind true (bytesOf (.char c :: ps')) = c :: through behind true (bytesOf ps') := by
      rw [bytesOf_char, through_char hplus]
      simp [hcomma, hdash]
    rw [Bool.not_false, hblank, UTF7.decode_direct (isDirect_of_blank hc), Option.map_map]
    refine (congrArg (fun b => UTF7.decode none (43 :: (sextets ++ b))) hblank).trans ?_
    exact UTF7.decode_ended hs hv (isDirect_of_blank hc) hbase hdash

lemma decode_char (hc : c ≠ 43) : UTF7.decode none (through behind escaped (bytesOf (.char c :: ps))) =
    if UTF7.isDirect c then (UTF7.decode none (through behind (escaped && c ≠ 45) (bytesOf ps))).map
      ((if escaped && c = 44 then 47 else c).toUInt16 :: ·)
    else none := by
  rw [bytesOf_char, through_char hc]
  by_cases hcomma : (escaped && c = 44) = true
  · obtain ⟨-, rfl⟩ : escaped = true ∧ c = 44 := by simpa using hcomma
    rw [if_pos hcomma, UTF7.decode_direct (by decide)]
    rfl
  · rw [if_neg hcomma, UTF7.decode, if_neg hc]

lemma decode_sextet (hc : UTF7.isBase64 c = true) :
    UTF7.decode (some sextets) (c :: b) = UTF7.decode (some (sextets ++ [c])) b := by
  rw [UTF7.decode, if_pos hc]

lemma decode_stop (hbase : UTF7.isBase64 c = false) (hdash : c ≠ 45)
    (h : UTF7.decode (some sextets) (c :: b) = some u) : ∃ vs w, UTF7.shifted sextets = some vs ∧
      UTF7.decode none b = some w ∧ u = vs ++ c.toUInt16 :: w := by
  rw [UTF7.decode, hbase, if_neg Bool.false_ne_true, if_neg hdash] at h
  split at h
  · obtain ⟨vs, hvs, hrest⟩ := Option.bind_eq_some_iff.mp h
    obtain ⟨w, hw, rfl⟩ := Option.map_eq_some_iff.mp hrest
    exact ⟨vs, w, hvs, hw, rfl⟩
  · cases h

lemma decode_dash (h : UTF7.decode (some sextets) (45 :: b) = some u) :
    ∃ vs w, (sextets = [] ∧ vs = [43] ∨ UTF7.shifted sextets = some vs) ∧ UTF7.decode none b = some w ∧ u = vs ++ w := by
  have hbase : UTF7.isBase64 45 = false := by decide
  rw [UTF7.decode, hbase, if_neg Bool.false_ne_true, if_pos rfl] at h
  obtain ⟨vs, hvs, hrest⟩ := Option.bind_eq_some_iff.mp h
  obtain ⟨w, hw, rfl⟩ := Option.map_eq_some_iff.mp hrest
  refine ⟨vs, w, ?_, hw, rfl⟩
  split at hvs
  · next hnil => exact .inl ⟨hnil, (Option.some.inj hvs).symm⟩
  · exact .inr hvs

lemma decode_length (h : WellFormed ps) :
    (∀ escaped u, UTF7.decode none (through behind escaped (bytesOf ps)) = some u →
      u.length ≤ (charsOf ps).length + 1) ∧
    ∀ sextets u, UTF7.decode (some sextets) (through behind true (bytesOf ps)) = some u →
      16 * u.length ≤ 6 * sextets.length + 10 + 16 * ((charsOf ps).length + 1) := by
  induction ps with
  | nil =>
    refine ⟨fun escaped u hu => ?_, fun sextets u hu => ?_⟩
    · cases escaped
      all_goals
        cases hu
        simp
    · obtain ⟨vs, w, hvs, hw, rfl⟩ := decode_dash (b := []) hu
      cases hw
      rw [List.append_nil]
      rcases hvs with ⟨-, rfl⟩ | hvs
      · rw [List.length_singleton]
        omega
      · have := UTF7.shifted_length hvs
        omega
  | cons p ps ih =>
    cases p with
    | char c =>
      obtain ⟨ih, ihs⟩ := ih h.2
      rw [charsOf_char, List.length_cons]
      refine ⟨fun escaped u hu => ?_, fun sextets u hu => ?_⟩
      · by_cases hplus : c = 43
        · subst hplus
          rw [bytesOf_char] at hu
          by_cases hnil : bytesOf ps = [] ∧ escaped = false
          · rw [hnil.1, hnil.2] at hu
            have hone : u.length ≤ 1 := by
              rw [through, if_pos rfl, if_pos ⟨rfl, rfl⟩] at hu
              split at hu
              · cases hu
              · cases hu
                exact le_rfl
            omega
          · rw [through, if_pos rfl, if_neg hnil] at hu
            have := ihs [] u hu
            simp only [List.length_nil] at this
            omega
        · rw [decode_char hplus] at hu
          split at hu
          · obtain ⟨w, hw, rfl⟩ := Option.map_eq_some_iff.mp hu
            have := ih _ w hw
            simpa using this
          · cases hu
      · rw [bytesOf_char] at hu
        by_cases hplus : c = 43
        · subst hplus
          rw [through_plus (.inr rfl), decode_sextet (by decide)] at hu
          have := ihs _ u hu
          simp only [List.length_append, List.length_singleton] at this
          omega
        · rw [through_char hplus] at hu
          by_cases hdash : c = 45
          · subst hdash
            obtain ⟨vs, w, hvs, hw, rfl⟩ := decode_dash hu
            have := ih _ w hw
            rw [List.length_append]
            rcases hvs with ⟨-, rfl⟩ | hvs
            · simp only [List.length_singleton]
              omega
            · have := UTF7.shifted_length hvs
              omega
          · have hmode : (true && decide (c ≠ 45)) = true := by simpa using hdash
            rw [hmode] at hu
            generalize hd : (if true && decide (c = 44) then (47 : UInt8) else c) = d at hu
            cases hbase : UTF7.isBase64 d with
            | true =>
              rw [decode_sextet hbase] at hu
              have := ihs _ u hu
              simp only [List.length_append, List.length_singleton] at this
              omega
            | false =>
              have hdne : d ≠ 45 := by
                rw [← hd]
                split
                · decide
                · exact hdash
              obtain ⟨vs, w, hvs, hw, rfl⟩ := decode_stop hbase hdne hu
              have := ih _ w hw
              have := UTF7.shifted_length hvs
              rw [List.length_append, List.length_cons]
              omega
    | group us front closed =>
      obtain ⟨ih, -⟩ := ih h.2.2.2.2
      have hfront := UTF7.shifted_length h.1
      rw [charsOf_group, List.length_append]
      refine ⟨fun escaped u hu => ?_, fun sextets u hu => ?_⟩
      · rw [decode_group h] at hu
        obtain ⟨w, hw, rfl⟩ := Option.map_eq_some_iff.mp hu
        have := ih _ w hw
        rw [List.length_append]
        omega
      · rw [bytesOf_group, through_plus (.inr rfl), through_sextets h.2.1, decode_sextet (by decide),
          UTF7.decode_sextets h.2.1] at hu
        cases closed with
        | true =>
          have hdash : through behind true (45 :: bytesOf ps) = 45 :: through behind false (bytesOf ps) := by
            rw [through_char (by decide)]
            simp
          rw [show through behind true ((if true then [45] else []) ++ bytesOf ps) = _ from hdash] at hu
          obtain ⟨vs, w, hvs, hw, rfl⟩ := decode_dash hu
          have := ih _ w hw
          rw [List.length_append]
          rcases hvs with ⟨hnil, -⟩ | hvs
          · simp at hnil
          · have := UTF7.shifted_length hvs
            simp only [List.length_append, List.length_singleton] at this
            omega
        | false =>
          obtain ⟨c, ps', rfl, hc⟩ := h.2.2.2.1 rfl
          obtain ⟨hbase, hplus, hcomma, hdash⟩ := blank_cases hc
          have hblank : through behind true (bytesOf (.char c :: ps')) = c :: through behind true (bytesOf ps') := by
            rw [bytesOf_char, through_char hplus]
            simp [hcomma, hdash]
          rw [show through behind true ((if false then [45] else []) ++ bytesOf (.char c :: ps')) = _ from hblank] at hu
          obtain ⟨vs, w, hvs, hw, rfl⟩ := decode_stop hbase hdash hu
          have hrest : UTF7.decode none (through behind true (bytesOf (.char c :: ps'))) = some (c.toUInt16 :: w) := by
            rw [hblank, UTF7.decode_direct (isDirect_of_blank hc), hw]
            rfl
          have := ih _ _ hrest
          have := UTF7.shifted_length hvs
          simp only [List.length_append, List.length_cons, List.length_nil] at *
          omega

lemma shifted_small {v : UInt16} (hv : v = 43 ∨ v = 45) (hs : ∀ d ∈ sextets, UTF7.isBase64 d = true)
    {vs w : List UInt16} (hvs : UTF7.shifted sextets = some vs) (h : v :: u = vs ++ w) : ∃ x y z front,
      sextets = x :: y :: z :: front ∧ ∀ d ∈ [x, y, z], UTF7.isBase64 d = true ∧ d ≠ 43 ∧ d ≠ 47 := by
  cases vs with
  | nil =>
    have hlen := UTF7.shifted_length hvs
    have hpos := List.length_pos_of_ne_nil (UTF7.shifted_ne_nil hvs)
    rw [List.length_nil] at hlen
    omega
  | cons v' vs =>
    obtain ⟨rfl, -⟩ := List.cons.inj h
    obtain ⟨x, y, z, front, rfl, hunit⟩ := UTF7.shifted_head hvs
    simp only [List.forall_mem_cons] at hs
    obtain ⟨hx, hy, hz, -⟩ := hs
    have hx' := UTF7.sextet_lt x hx
    have hy' := UTF7.sextet_lt y hy
    have hz' := UTF7.sextet_lt z hz
    have hval : (4096 * UTF7.sextet x + 64 * UTF7.sextet y + UTF7.sextet z) / 4 = v.toNat := by
      rw [hunit, UInt16.toNat_ofNat', Nat.mod_eq_of_lt (by omega)]
    have hsmall : v.toNat = 43 ∨ v.toNat = 45 := by
      rcases hv with rfl | rfl
      · exact .inl rfl
      · exact .inr rfl
    have hne : ∀ d, UTF7.sextet d < 62 → d ≠ 43 ∧ d ≠ 47 := by
      rintro d hd
      refine ⟨?_, ?_⟩
      all_goals
        rintro rfl
        exact absurd hd (by decide)
    refine ⟨x, y, z, front, rfl, ?_⟩
    simp only [List.forall_mem_cons]
    exact ⟨⟨hx, hne x (by omega)⟩, ⟨hy, hne y (by omega)⟩, ⟨hz, hne z (by omega)⟩, List.forall_mem_nil _⟩

lemma decode_units_head {v : UInt16} (hv : v = 43 ∨ v = 45) (hs : ∀ d ∈ sextets, UTF7.isBase64 d = true)
    (h : UTF7.decode (some sextets) b = some (v :: u)) :
    (sextets = [] ∧ v = 43 ∧ ∃ b', b = 45 :: b' ∧ UTF7.decode none b' = some u) ∨
    ∃ x y z front, sextets ++ b = x :: y :: z :: front ∧ ∀ d ∈ [x, y, z], UTF7.isBase64 d = true ∧ d ≠ 43 ∧ d ≠ 47 := by
  induction b generalizing sextets with
  | nil =>
    rw [List.append_nil]
    exact .inr (shifted_small hv hs h (List.append_nil _).symm)
  | cons c b ih =>
    cases hbase : UTF7.isBase64 c with
    | true =>
      rw [decode_sextet hbase] at h
      have hs' : ∀ d ∈ sextets ++ [c], UTF7.isBase64 d = true := by
        rw [List.forall_mem_append]
        exact ⟨hs, by simpa using hbase⟩
      rcases ih hs' h with ⟨hnil, -⟩ | hfront
      · simp at hnil
      · exact .inr (by simpa using hfront)
    | false =>
      have hextend : (∃ x y z front, sextets = x :: y :: z :: front ∧
          ∀ d ∈ [x, y, z], UTF7.isBase64 d = true ∧ d ≠ 43 ∧ d ≠ 47) → ∃ x y z front,
            sextets ++ c :: b = x :: y :: z :: front ∧ ∀ d ∈ [x, y, z], UTF7.isBase64 d = true ∧ d ≠ 43 ∧ d ≠ 47 := by
        rintro ⟨x, y, z, front, rfl, hd⟩
        exact ⟨x, y, z, front ++ c :: b, rfl, hd⟩
      by_cases hdash : c = 45
      · subst hdash
        obtain ⟨vs, w, ⟨rfl, rfl⟩ | hvs, hw, hu⟩ := decode_dash h
        · obtain ⟨rfl, rfl⟩ := List.cons.inj hu
          exact .inl ⟨rfl, rfl, b, rfl, hw⟩
        · exact .inr (hextend (shifted_small hv hs hvs hu))
      · obtain ⟨vs, w, hvs, -, hu⟩ := decode_stop hbase hdash h
        exact .inr (hextend (shifted_small hv hs hvs hu))

lemma through_head {d : UInt8} (hd : UTF7.isBase64 d = true ∧ d ≠ 43 ∧ d ≠ 47)
    (h : through behind true (bytesOf ps) = d :: b) :
    ∃ ps', ps = .char d :: ps' ∧ b = through behind true (bytesOf ps') := by
  cases ps with
  | nil =>
    obtain ⟨rfl, -⟩ := List.cons.inj h
    cases hd.1
  | cons p ps =>
    cases p with
    | char c =>
      rw [bytesOf_char] at h
      by_cases hplus : c = 43
      · rw [hplus, through_plus (.inr rfl)] at h
        exact absurd (List.cons.inj h).1.symm hd.2.1
      · rw [through_char hplus] at h
        obtain ⟨hc, rfl⟩ := List.cons.inj h
        by_cases hcomma : c = 44
        · subst hcomma
          exact absurd hc.symm hd.2.2
        · obtain rfl : c = d := by simpa [hcomma] using hc
          exact ⟨ps, rfl, by simp [(ne_of_base64 hd.1).2]⟩
    | group us sextets closed =>
      rw [bytesOf_group, through_plus (.inr rfl)] at h
      exact absurd (List.cons.inj h).1.symm hd.2.1

lemma decode_plus {v : UInt16} (hwf : WellFormed ps) (hv : v = 43 ∨ v = 45)
    (h : UTF7.decode (some []) (through behind true (bytesOf ps)) = some (v :: u)) :
    (v = 43 ∧ ((ps = [] ∧ u = []) ∨
      ∃ ps', ps = .char 45 :: ps' ∧ UTF7.decode none (through behind false (bytesOf ps')) = some u)) ∨
    (v :: u).length < (charsOf ps).length := by
  rcases decode_units_head hv (by simp) h with ⟨-, hv', b, hb, hu⟩ | ⟨x, y, z, front, hfront, hd⟩
  · refine .inl ⟨hv', ?_⟩
    cases ps with
    | nil =>
      obtain rfl : [] = b := (List.cons.inj hb).2
      cases hu
      exact .inl ⟨rfl, rfl⟩
    | cons p ps =>
      refine .inr ?_
      cases p with
      | char c =>
        rw [bytesOf_char] at hb
        by_cases hplus : c = 43
        · rw [hplus, through_plus (.inr rfl)] at hb
          exact absurd (List.cons.inj hb).1 (by decide)
        · rw [through_char hplus] at hb
          obtain ⟨hc, rfl⟩ := List.cons.inj hb
          by_cases hcomma : c = 44
          · subst hcomma
            exact absurd hc (by decide)
          · obtain rfl : c = 45 := by simpa [hcomma] using hc
            exact ⟨ps, rfl, by simpa using hu⟩
      | group us sextets closed =>
        rw [bytesOf_group, through_plus (.inr rfl)] at hb
        exact absurd (List.cons.inj hb).1 (by decide)
  · rw [List.nil_append] at hfront
    obtain ⟨hx, hy, hz⟩ : (UTF7.isBase64 x = true ∧ x ≠ 43 ∧ x ≠ 47) ∧ (UTF7.isBase64 y = true ∧ y ≠ 43 ∧ y ≠ 47) ∧
        UTF7.isBase64 z = true ∧ z ≠ 43 ∧ z ≠ 47 := by simpa using hd
    rw [hfront, decode_sextet hx.1, decode_sextet hy.1, decode_sextet hz.1] at h
    obtain ⟨ps₁, rfl, h₁⟩ := through_head hx hfront
    obtain ⟨ps₂, rfl, h₂⟩ := through_head hy h₁.symm
    obtain ⟨ps₃, rfl, rfl⟩ := through_head hz h₂.symm
    have hlen := (decode_length hwf.2.2.2).2 _ _ h
    right
    simp only [charsOf_char, List.length_cons, List.length_append, List.length_nil] at hlen ⊢
    omega

lemma decode_ne_dashes (h : WellFormed ps) {k : ℕ} (hk : 0 < k) :
    UTF7.decode none (through behind false (bytesOf ps)) ≠ some (List.replicate k 45 ++ charsOf ps) := by
  intro hu
  induction ps generalizing k with
  | nil =>
    have hnil : [] = List.replicate k 45 ++ charsOf [] := Option.some.inj hu
    have := congrArg List.length hnil
    simp only [List.length_nil, List.length_append, List.length_replicate] at this
    omega
  | cons p ps ih =>
    obtain ⟨k, rfl⟩ : ∃ l, k = l + 1 := ⟨k - 1, by omega⟩
    rw [List.replicate_succ, List.cons_append] at hu
    cases p with
    | char c =>
      by_cases hplus : c = 43
      · subst hplus
        by_cases hnil : ps = []
        · subst hnil
          rw [bytesOf_char, through, if_pos rfl, if_pos ⟨rfl, rfl⟩] at hu
          split at hu
          · cases hu
          · exact absurd (List.cons.inj (Option.some.inj hu)).1 (by decide)
        · rw [bytesOf_char, through_plus (.inl (bytesOf_ne_nil hnil))] at hu
          rcases decode_plus h.2 (.inr rfl) hu with ⟨hv, -⟩ | hlen
          · exact absurd hv (by decide)
          · simp only [charsOf_char, List.length_cons, List.length_append, List.length_replicate] at hlen
            omega
      · rw [decode_char hplus] at hu
        split at hu
        · obtain ⟨w, hw, hcons⟩ := Option.map_eq_some_iff.mp hu
          obtain ⟨hc, rfl⟩ := List.cons.inj hcons
          obtain rfl : c = 45 := by
            by_contra hne
            exact toUInt16_ne hne hc
          refine ih h.2 (Nat.succ_pos k) ?_
          rw [List.replicate_succ', List.append_assoc]
          exact hw
        · cases hu
    | group us sextets closed =>
      rw [decode_group h] at hu
      obtain ⟨w, -, hcons⟩ := Option.map_eq_some_iff.mp hu
      cases us with
      | nil =>
        have hlen := UTF7.shifted_length h.1
        have hpos := List.length_pos_of_ne_nil (UTF7.shifted_ne_nil h.1)
        rw [List.length_nil] at hlen
        omega
      | cons u us =>
        obtain ⟨rfl, -⟩ := List.cons.inj hcons
        exact absurd (h.2.2.1 45 List.mem_cons_self) (by decide)

lemma decode_iff_restorable (h : WellFormed ps) (escaped : Bool) :
    UTF7.decode none (through behind escaped (bytesOf ps)) = some (charsOf ps) ↔ Restorable escaped ps := by
  induction ps generalizing escaped with
  | nil =>
    cases escaped with
    | true => exact iff_of_false (fun hu => by cases hu) fun hr => by cases hr
    | false => exact iff_of_true rfl rfl
  | cons p ps ih =>
    cases p with
    | char c =>
      rw [charsOf_char, Restorable]
      by_cases hplus : c = 43
      · subst hplus
        rw [if_pos rfl]
        refine ⟨fun hu => ?_, fun ⟨he, hnil⟩ => ?_⟩
        · by_cases hend : bytesOf ps = [] ∧ escaped = false
          · rw [bytesOf_char, through, if_pos rfl, if_pos hend] at hu
            split at hu
            · cases hu
            · exact absurd (List.cons.inj (Option.some.inj hu)).1 (by decide)
          · rw [bytesOf_char, through, if_pos rfl, if_neg hend] at hu
            rcases decode_plus h.2 (.inl rfl) hu with ⟨-, ⟨rfl, -⟩ | ⟨ps', rfl, hu'⟩⟩ | hlen
            · exact ⟨by simpa [bytesOf] using hend, rfl⟩
            · exact absurd hu' (decode_ne_dashes h.2.2 Nat.one_pos)
            · simp only [List.length_cons] at hlen
              omega
        · subst hnil
          rw [he]
          rfl
      · rw [decode_char hplus, if_neg hplus]
        split
        · next hdirect =>
          rw [and_iff_right hdirect, ← ih h.2]
          refine ⟨fun hu => ?_, fun ⟨hcomma, hu⟩ => ?_⟩
          · obtain ⟨w, hw, hcons⟩ := Option.map_eq_some_iff.mp hu
            obtain ⟨hc, rfl⟩ := List.cons.inj hcons
            refine ⟨?_, hw⟩
            rintro ⟨rfl, rfl⟩
            exact absurd hc (by decide)
          · have hkept : ¬(escaped && decide (c = 44)) = true := by simpa using hcomma
            rw [hu, if_neg hkept]
            rfl
        · next hdirect => exact iff_of_false (fun hu => by cases hu) fun hr => hdirect hr.1
    | group us sextets closed =>
      rw [decode_group h, charsOf_group, Restorable, ← ih h.2.2.2.2]
      refine ⟨fun hu => ?_, fun hu => by rw [hu]; rfl⟩
      obtain ⟨w, hw, hsame⟩ := Option.map_eq_some_iff.mp hu
      rw [hw, List.append_cancel_left hsame]

end Pieces

/-- Whether the rewritings take the text for shifted when they have come to its end. -/
def escapedBehind (escaped : Bool) (b : Bytes) : Bool :=
  b.foldl (fun escaped c => if c = 43 then true else if c = 45 then false else escaped) escaped

/-- The names that come back: no `\\` and no `~`, which UTF-7 has no direct character for; no `+`, which is not encoded
by the first loop and starts a shifted sequence in the second one; and, where the encoder has ended a shifted sequence
at a blank without a `-`, which the second loop waits for, such a `-` in front of every comma and of the end. -/
@[grind =] def Restores (encode : List UInt16 → Bytes) : Bool → List UInt16 → List UInt16 → Prop
  | escaped, run, [] => escapedBehind escaped (encodeRun encode run) = false
  | escaped, run, ch :: s =>
    if isPrintable ch then
      let escaped := escapedBehind escaped (encodeRun encode run)
      if ch = 43 then escaped = true ∧ s = []
      else (ch ≠ 92 ∧ ch ≠ 126) ∧ ¬(escaped = true ∧ ch = 44) ∧ Restores encode (escaped && ch ≠ 45) [] s
    else Restores encode escaped (run ++ [ch]) s

section Names

variable {encode : List UInt16 → Bytes} {behind : UInt8} {lossy : UInt16 → Bytes}

lemma escapedBehind_sextets {sextets : Bytes} (hs : ∀ c ∈ sextets, UTF7.isBase64 c = true) :
    escapedBehind true sextets = true := by
  induction sextets with
  | nil => rfl
  | cons c sextets ih =>
    have hc := (ne_of_base64 (hs c List.mem_cons_self)).2
    have ih := ih fun x hx => hs x (List.mem_cons_of_mem c hx)
    rw [escapedBehind, List.foldl_cons, if_neg hc, ite_self]
    exact ih

lemma escapedBehind_append (escaped : Bool) (a b : Bytes) :
    escapedBehind escaped (a ++ b) = escapedBehind (escapedBehind escaped a) b := List.foldl_append

lemma isBlank_of_direct : ∀ c, UTF7.isDirect c = true → isPrintable c.toUInt16 = false → isBlank c = true :=
  Byte.forall_byte (by decide)

lemma encoding_pieces {us : List UInt16} {b : Bytes} (h : UTF7.Encoding us b) (hus : ∀ u ∈ us, isPrintable u = false) :
    ∃ ps, bytesOf ps = b ∧ charsOf ps = us ∧ ∀ qs, WellFormed qs → WellFormed (ps ++ qs) ∧
      ∀ escaped, Restorable escaped (ps ++ qs) ↔ Restorable (escapedBehind escaped b) qs := by
  induction h with
  | nil => exact ⟨[], rfl, rfl, fun qs hqs => ⟨hqs, fun _ => Iff.rfl⟩⟩
  | @direct c us b hc _ ih =>
    rw [List.forall_mem_cons] at hus
    obtain ⟨ps, rfl, rfl, hps⟩ := ih hus.2
    have hblank := isBlank_of_direct c hc hus.1
    obtain ⟨-, hplus, hcomma, hdash⟩ := blank_cases hblank
    refine ⟨.char c :: ps, rfl, rfl, fun qs hqs => ⟨⟨.inl hblank, (hps qs hqs).1⟩, fun escaped => ?_⟩⟩
    rw [List.cons_append, Restorable, if_neg hplus, (hps qs hqs).2]
    simp [hc, hcomma, hdash, hplus, escapedBehind]
  | plus _ _ => exact absurd (hus 43 List.mem_cons_self) (by decide)
  | @closed sextets vs us b hs hv _ ih =>
    rw [List.forall_mem_append] at hus
    obtain ⟨ps, rfl, rfl, hps⟩ := ih hus.2
    refine ⟨.group vs sextets true :: ps, bytesOf_group, charsOf_group, fun qs hqs => ⟨?_, fun escaped => ?_⟩⟩
    · exact ⟨hv, hs, hus.1, nofun, (hps qs hqs).1⟩
    · rw [List.cons_append, Restorable, (hps qs hqs).2]
      have hbehind : escapedBehind escaped (43 :: (sextets ++ 45 :: bytesOf ps)) = escapedBehind false (bytesOf ps) := by
        have hcut : escapedBehind true (sextets ++ 45 :: bytesOf ps) = escapedBehind false (bytesOf ps) := by
          rw [escapedBehind_append, escapedBehind_sextets hs]
          rfl
        exact hcut
      rw [hbehind]
      rfl
  | @ended sextets vs c us b hs hv hc hc' hne _ ih =>
    rw [List.forall_mem_append, List.forall_mem_cons] at hus
    obtain ⟨ps, rfl, rfl, hps⟩ := ih hus.2.2
    have hblank := isBlank_of_direct c hc hus.2.1
    obtain ⟨-, hplus, hcomma, hdash⟩ := blank_cases hblank
    refine ⟨.group vs sextets false :: .char c :: ps, bytesOf_group, charsOf_group, fun qs hqs => ⟨?_, fun escaped => ?_⟩⟩
    · exact ⟨hv, hs, hus.1, fun _ => ⟨c, ps ++ qs, rfl, hblank⟩, .inl hblank, (hps qs hqs).1⟩
    · rw [List.cons_append, List.cons_append, Restorable, Restorable, if_neg hplus, (hps qs hqs).2]
      have hbehind : escapedBehind escaped (43 :: (sextets ++ c :: bytesOf ps)) = escapedBehind true (bytesOf ps) := by
        have hcut : escapedBehind true (sextets ++ c :: bytesOf ps) = escapedBehind true (bytesOf ps) := by
          rw [escapedBehind_append, escapedBehind_sextets hs, escapedBehind, List.foldl_cons, if_neg hplus, if_neg hdash]
          rfl
        exact hcut
      rw [hbehind]
      simp [hc, hcomma, hdash]

lemma encodeRun_encoding (hencode : ∀ us, UTF7.Encoding us (encode us)) (run : List UInt16) :
    UTF7.Encoding run (encodeRun encode run) := by
  rw [encodeRun]
  split
  · next h =>
    rw [h]
    exact .nil
  · exact hencode run

lemma isDirect_of_printable : ∀ c : UInt8, isPrintable c.toUInt16 = true → c ≠ 43 →
    (UTF7.isDirect c = true ↔ c.toUInt16 ≠ 92 ∧ c.toUInt16 ≠ 126) := Byte.forall_byte (by decide)

lemma printable_bounds : ∀ c : UInt8, isPrintable c.toUInt16 = true → 32 ≤ c ∧ c ≤ 126 :=
  Byte.forall_byte (by decide)

lemma toUInt16_of_printable {ch : UInt16} (h : isPrintable ch = true) : ch.toUInt8.toUInt16 = ch := by
  simp only [isPrintable, Bool.and_eq_true, decide_eq_true_eq, UInt16.le_iff_toNat_le] at h
  have hle : ch.toNat ≤ 126 := h.2
  apply UInt16.toNat_inj.mp
  rw [UInt8.toNat_toUInt16, UInt16.toNat_toUInt8, Nat.mod_eq_of_lt (by omega)]

lemma encodeParts_pieces (hencode : ∀ us, UTF7.Encoding us (encode us)) {run : List UInt16}
    (hrun : ∀ u ∈ run, isPrintable u = false) (s : List UInt16) :
    ∃ ps, bytesOf ps = encodeParts encode run s ∧ charsOf ps = run ++ s ∧ WellFormed ps ∧
      ∀ escaped, Restorable escaped ps ↔ Restores encode escaped run s := by
  induction s generalizing run with
  | nil =>
    obtain ⟨ps, hb, hc, hps⟩ := encoding_pieces (encodeRun_encoding hencode run) hrun
    have hend := hps [] trivial
    rw [List.append_nil] at hend
    exact ⟨ps, hb, by rw [hc, List.append_nil], hend⟩
  | cons ch s ih =>
    by_cases hch : isPrintable ch = true
    · obtain ⟨ps, hb, hc, hps⟩ := encoding_pieces (encodeRun_encoding hencode run) hrun
      obtain ⟨qs, hqb, hqc, hwf, hqs⟩ := @ih [] (by simp)
      obtain ⟨c, rfl⟩ : ∃ c : UInt8, c.toUInt16 = ch := ⟨ch.toUInt8, toUInt16_of_printable hch⟩
      have hcons : WellFormed (.char c :: qs) := ⟨.inr (printable_bounds c hch), hwf⟩
      have hnil : qs = [] ↔ s = [] := by
        refine ⟨fun h => ?_, fun h => ?_⟩
        · rw [h] at hqc
          exact hqc.symm
        · by_contra hne
          refine bytesOf_ne_nil hne ?_
          rw [hqb, h]
          rfl
      refine ⟨ps ++ .char c :: qs, ?_, ?_, (hps _ hcons).1, fun escaped => ?_⟩
      · rw [bytesOf, List.flatMap_append, ← bytesOf, ← bytesOf, bytesOf_char, hb, hqb, encodeParts, if_pos hch,
          UInt8.toUInt8_toUInt16]
      · rw [charsOf, List.flatMap_append, ← charsOf, ← charsOf, charsOf_char, hc, hqc, List.nil_append]
      · rw [(hps _ hcons).2, Restorable, Restores, if_pos hch]
        simp only
        by_cases hplus : c = 43
        · subst hplus
          rw [if_pos rfl, if_pos (by decide), hnil]
        · have hplus' : c.toUInt16 ≠ 43 := toUInt16_ne hplus
          have hcomma : c.toUInt16 = 44 ↔ c = 44 := ⟨fun h => by_contra fun hne => toUInt16_ne hne h, fun h => by rw [h]; rfl⟩
          have hdash : c.toUInt16 = 45 ↔ c = 45 := ⟨fun h => by_contra fun hne => toUInt16_ne hne h, fun h => by rw [h]; rfl⟩
          rw [if_neg hplus, if_neg hplus', isDirect_of_printable c hch hplus, hqs]
          simp only [ne_eq, hcomma, hdash]
    · have hrun' : ∀ u ∈ run ++ [ch], isPrintable u = false := by
        rw [List.forall_mem_append]
        exact ⟨hrun, by simpa using hch⟩
      obtain ⟨ps, hb, hc, hwf, hps⟩ := ih hrun'
      refine ⟨ps, ?_, by rw [hc, List.append_assoc, List.singleton_append], hwf, fun escaped => ?_⟩
      · rw [hb, encodeParts, if_neg hch]
      · rw [hps, Restores, if_neg hch]

lemma modify_ascii {b : Bytes} (hb : ∀ c ∈ b, c < 128) (escaped : Bool) : ∀ c ∈ modify behind escaped b, c < 128 := by
  induction b generalizing escaped with
  | nil => cases escaped <;> simp [modify]
  | cons c b ih =>
    rw [List.forall_mem_cons] at hb
    have ih := ih hb.2
    rw [modify]
    split
    · simpa using ih _
    · split
      · split
        · simpa using ih _
        · simpa using ih _
      · split
        · simpa using ih _
        · split
          · simpa using ih _
          · rw [List.forall_mem_cons]
            exact ⟨hb.1, ih _⟩

lemma encodeParts_ascii (hencode : ∀ us, UTF7.Encoding us (encode us)) {run : List UInt16} (s : List UInt16) :
    ∀ c ∈ encodeParts encode run s, c < 128 := by
  induction s generalizing run with
  | nil => exact UTF7.encoding_ascii (encodeRun_encoding hencode run)
  | cons ch s ih =>
    rw [encodeParts]
    split
    · next hch =>
      rw [List.forall_mem_append, List.forall_mem_cons]
      obtain ⟨c, rfl⟩ : ∃ c : UInt8, c.toUInt16 = ch := ⟨ch.toUInt8, toUInt16_of_printable hch⟩
      have hlt : c < 128 := UInt8.lt_of_le_of_lt (printable_bounds c hch).2 (by decide)
      rw [UInt8.toUInt8_toUInt16]
      exact ⟨UTF7.encoding_ascii (encodeRun_encoding hencode run), hlt, ih⟩
    · exact ih

/-- A name comes back exactly if it is one of those. -/
theorem stringFromModifiedUTF7_iff (hencode : ∀ us, UTF7.Encoding us (encode us)) (s : List UInt16) :
    stringFromModifiedUTF7 lossy (modifiedUTF7String encode behind s) = some s ↔ Restores encode false [] s := by
  have hascii := @encodeParts_ascii _ hencode [] s
  have hall : (modify behind false (encodeParts encode [] s)).all (· < 128) = true := by
    rw [List.all_eq_true]
    exact fun c hc => by simpa using modify_ascii hascii false c hc
  obtain ⟨ps, hb, hc, hwf, hps⟩ := @encodeParts_pieces _ hencode [] (by simp) s
  simp only [modifiedUTF7String, hall, if_true]
  rw [stringFromModifiedUTF7, restore_modify hascii, ← hb, ← hps, ← @decode_iff_restorable behind _ hwf, hc,
    List.nil_append]

/-- `é&x/,-` -/
theorem stringFromModifiedUTF7_sample :
    stringFromModifiedUTF7 (fun _ => [63]) (modifiedUTF7String UTF7.encode 0 [233, 38, 120, 47, 44, 45]) =
      some [233, 38, 120, 47, 44, 45] :=
  (stringFromModifiedUTF7_iff UTF7.encoding_encode _).mpr (by simp [Restores, isPrintable, escapedBehind, encodeRun]; decide)

/-- `a+b` -/
theorem plus_not_restored :
    stringFromModifiedUTF7 (fun _ => [63]) (modifiedUTF7String UTF7.encode 0 [97, 43, 98]) ≠ some [97, 43, 98] := by
  decide

end Names

end Xperimentum.Pantomime.MailboxNames
