import Mathlib.Data.List.TakeWhile
import Xperimentum.Lib.Byte
import Xperimentum.Pantomime.BaseSubject

/-! The strings that the regular expressions of base subjects match, and the pieces that are deleted at the start. -/

namespace Xperimentum.Pantomime.BaseSubject

open Lib.Byte Lib.RegexSearch EncodedWords

section Words

/-- The characters have a single byte each, and none of them ends a C string. -/
def Plain (e : CStringEncoding) (s : Str) : Prop := ∀ u ∈ s, e.single u ∧ u ≠ 0

def Spelled (css : List Bytes) (x : Str) : Prop := List.Forall₂ (fun cs u => u ∈ asciiUnits cs) css x

/-- There are no brackets. -/
def Free (m : Str) : Prop := 91 ∉ m ∧ 93 ∉ m

def Core (x : Str) : Prop := ∃ m, Free m ∧ x = 91 :: (m ++ [93])

def Blob (x : Str) : Prop := ∃ c k, Core c ∧ x = c ++ List.replicate k 32

def Keyword (w : Str) : Prop :=
  Spelled [[114, 82], [101, 69]] w ∨ Spelled [[102, 70], [119, 87]] w ∨ Spelled [[102, 70], [119, 87], [100, 68]] w

def ReFwd (x : Str) : Prop :=
  ∃ w k o, Keyword w ∧ (o = [] ∨ Blob o) ∧ x = w ++ (List.replicate k 32 ++ (o ++ [58]))

def Leader (x : Str) : Prop := x = [32] ∨ ∃ (bs : List Str) (r : Str), (∀ b ∈ bs, Blob b) ∧ ReFwd r ∧ x = bs.flatten ++ r

/-- What the leaders and the blobs are made of. -/
inductive Token : Str → Prop
  | space : Token [32]
  | core {x : Str} (h : Core x) : Token x
  | reFwd {x : Str} (h : ReFwd x) : Token x

end Words

section Encoding

variable {e : CStringEncoding} {s x : Str} {u : UInt16} {cs : Bytes}

lemma Plain.of_append {a b : Str} (h : Plain e (a ++ b)) : Plain e a ∧ Plain e b :=
  List.forall_mem_append.mp h

lemma mem_encode (hcs : cs.all (· < 128) = true) (hu : e.single u) : e.encode u ∈ cs ↔ u ∈ asciiUnits cs := by
  rw [asciiUnits, List.mem_map]
  by_cases hlt : u < 128
  · rw [(e.ascii u hlt).2]
    have hback : u.toUInt8.toUInt16 = u := by
      rw [UInt16.toUInt16_toUInt8]
      apply UInt16.toNat_inj.mp
      rw [UInt16.toNat_mod]
      exact Nat.mod_eq_of_lt (lt_trans hlt (by decide))
    refine ⟨fun h => ⟨_, h, hback⟩, fun ⟨c, hc, heq⟩ => ?_⟩
    rw [← heq, UInt8.toUInt8_toUInt16]
    exact hc
  · have hge := e.other u (UInt16.not_lt.mp hlt) hu
    refine iff_of_false (fun h => UInt8.not_lt.mpr hge (forall_mem_of_all hcs _ h)) ?_
    rintro ⟨c, hc, rfl⟩
    have hc' := forall_mem_of_all hcs c hc
    refine hlt ?_
    rw [UInt16.lt_iff_toNat_lt, UInt8.toNat_toUInt16]
    exact hc'

lemma lossyCString_plain (h : Plain e s) : e.lossyCString s = s.map e.encode := by
  rw [e.lossyCString_eq s fun u hu => (h u hu).1, List.takeWhile_eq_self_iff]
  intro c hc
  obtain ⟨u, hu, rfl⟩ := List.mem_map.mp hc
  have hzero := mem_encode (show ([0] : Bytes).all (· < 128) = true by decide) (h u hu).1
  rw [decide_eq_true_eq]
  intro heq
  rw [heq] at hzero
  exact (h u hu).2 (List.mem_singleton.mp (hzero.mp (List.mem_singleton.mpr rfl)))

lemma spelled_iff {css : List Bytes} (hcss : css.all (fun cs => cs.all (· < 128)) = true) (hx : ∀ u ∈ x, e.single u) :
    x.map e.encode ∈ (word css).matches' ↔ Spelled css x := by
  rw [map_mem_word]
  induction css generalizing x with
  | nil => rw [Spelled, List.forall₂_nil_left_iff, List.forall₂_nil_left_iff]
  | cons cs css ih =>
    obtain ⟨hcs, hrest⟩ := (Bool.and_eq_true _ _).mp (List.all_cons.symm.trans hcss)
    cases x with
    | nil => exact iff_of_false (fun h => nomatch h) fun h => nomatch h
    | cons u x =>
      obtain ⟨hu, hx⟩ := List.forall_mem_cons.mp hx
      rw [Spelled, List.forall₂_cons, List.forall₂_cons, mem_encode hcs hu, ih hrest hx]
      rfl

lemma spelled_singleton {c : UInt8} : Spelled [[c]] x ↔ x = [c.toUInt16] := by
  constructor
  · intro h
    cases h with
    | cons hu hrest =>
      cases hrest
      rw [List.mem_singleton.mp hu]
  · rintro rfl
    exact .cons (List.mem_singleton.mpr rfl) .nil

lemma spaces_iff (hx : ∀ u ∈ x, e.single u) :
    x.map e.encode ∈ (oneOf [32]).star.matches' ↔ x = List.replicate x.length 32 := by
  rw [map_mem_star_oneOf, List.eq_replicate_iff]
  refine ⟨fun h => ⟨rfl, fun u hu => ?_⟩, fun ⟨_, h⟩ u hu => ?_⟩
  · exact List.mem_singleton.mp ((mem_encode (by decide) (hx u hu)).mp (h u hu))
  · refine (mem_encode (by decide) (hx u hu)).mpr ?_
    rw [h u hu]
    decide

lemma noneOf_iff (hcs : cs.all (· < 128) = true) (hx : ∀ u ∈ x, e.single u) :
    x.map e.encode ∈ (noneOf cs).star.matches' ↔ ∀ u ∈ x, u ∉ asciiUnits cs := by
  rw [noneOf, map_mem_star_oneOf]
  have hall : ∀ b : UInt8, b ∈ (List.range 256).map UInt8.ofNat := fun b =>
    List.mem_map.mpr ⟨b.toNat, List.mem_range.mpr b.toNat_lt, UInt8.ofNat_toNat⟩
  refine forall₂_congr fun u hu => ?_
  rw [List.mem_filter, decide_eq_true_eq, ← mem_encode hcs (hx u hu)]
  exact and_iff_right (hall _)

end Encoding

section Languages

variable {e : CStringEncoding} {s x : Str}

/-- Both parts of a string whose characters have a single byte have such characters. -/
lemma single_append {a b : Str} (h : ∀ u ∈ a ++ b, e.single u) : (∀ u ∈ a, e.single u) ∧ ∀ u ∈ b, e.single u :=
  List.forall_mem_append.mp h

lemma free_iff {m : Str} : (∀ u ∈ m, u ∉ asciiUnits [91, 93]) ↔ Free m := by
  have hunits : asciiUnits [91, 93] = [91, 93] := rfl
  rw [hunits]
  refine ⟨fun h => ⟨fun hm => h 91 hm (by decide), fun hm => h 93 hm (by decide)⟩, fun h u hu hmem => ?_⟩
  rcases List.mem_cons.mp hmem with rfl | hmem
  · exact h.1 hu
  · exact h.2 (List.mem_singleton.mp hmem ▸ hu)

lemma blob_iff (hx : ∀ u ∈ x, e.single u) : x.map e.encode ∈ subjBlob.matches' ↔ Blob x := by
  rw [subjBlob]
  constructor
  · intro h
    obtain ⟨a, y, rfl, ha, hy⟩ := map_mem_mul.mp h
    obtain ⟨hxa, hxy⟩ := single_append hx
    obtain ⟨m, z, rfl, hm, hz⟩ := map_mem_mul.mp hy
    obtain ⟨hxm, hxz⟩ := single_append hxy
    obtain ⟨c, d, rfl, hc, hd⟩ := map_mem_mul.mp hz
    obtain ⟨hxc, hxd⟩ := single_append hxz
    have ha' := spelled_singleton.mp ((spelled_iff (by decide) hxa).mp ha)
    have hc' := spelled_singleton.mp ((spelled_iff (by decide) hxc).mp hc)
    have hd' := (spaces_iff hxd).mp hd
    have hm' := free_iff.mp ((noneOf_iff (by decide) hxm).mp hm)
    refine ⟨91 :: (m ++ [93]), d.length, ⟨m, hm', rfl⟩, ?_⟩
    rw [← hd', ha', hc']
    exact congrArg (List.cons 91) (List.append_assoc m [93] d).symm
  · rintro ⟨c, k, ⟨m, hm, rfl⟩, rfl⟩
    have hsplit : 91 :: (m ++ [93]) ++ List.replicate k 32 = [91] ++ (m ++ ([93] ++ List.replicate k (32 : UInt16))) := by
      rw [List.cons_append, List.append_assoc]
      rfl
    rw [hsplit] at hx ⊢
    obtain ⟨hxa, hxy⟩ := single_append hx
    obtain ⟨hxm, hxz⟩ := single_append hxy
    obtain ⟨hxc, hxd⟩ := single_append hxz
    refine map_mem_mul.mpr ⟨_, _, rfl, (spelled_iff (by decide) hxa).mpr (spelled_singleton.mpr rfl), ?_⟩
    refine map_mem_mul.mpr ⟨_, _, rfl, (noneOf_iff (by decide) hxm).mpr (free_iff.mpr hm), ?_⟩
    refine map_mem_mul.mpr ⟨_, _, rfl, (spelled_iff (by decide) hxc).mpr (spelled_singleton.mpr rfl), ?_⟩
    refine (spaces_iff hxd).mpr ?_
    rw [List.length_replicate]

lemma keyword_iff (hx : ∀ u ∈ x, e.single u) : x.map e.encode ∈ reOrFwd.matches' ↔ Keyword x := by
  rw [reOrFwd, map_mem_add, spelled_iff (by decide) hx, Keyword]
  refine or_congr_right ?_
  constructor
  · intro h
    obtain ⟨a, b, rfl, ha, hb⟩ := map_mem_mul.mp h
    obtain ⟨hxa, hxb⟩ := single_append hx
    have ha' := (spelled_iff (by decide) hxa).mp ha
    rcases map_mem_add.mp hb with hb | hb
    · exact .inr (List.rel_append ha' ((spelled_iff (by decide) hxb).mp hb))
    · rw [map_mem_one.mp hb, List.append_nil]
      exact .inl ha'
  · rintro (h | h)
    · refine map_mem_mul.mpr ⟨x, [], (List.append_nil x).symm, (spelled_iff (by decide) hx).mpr h, ?_⟩
      exact map_mem_add.mpr (.inr (map_mem_one.mpr rfl))
    · obtain ⟨u, y, hf, hy, rfl⟩ := List.forall₂_cons_left_iff.mp h
      obtain ⟨v, z, hw, hd, rfl⟩ := List.forall₂_cons_left_iff.mp hy
      have hsplit : u :: v :: z = [u, v] ++ z := rfl
      rw [hsplit] at hx ⊢
      obtain ⟨hxa, hxb⟩ := single_append hx
      refine map_mem_mul.mpr ⟨_, _, rfl, (spelled_iff (by decide) hxa).mpr (.cons hf (.cons hw .nil)), ?_⟩
      exact map_mem_add.mpr (.inl ((spelled_iff (by decide) hxb).mpr hd))

lemma reFwd_iff (hx : ∀ u ∈ x, e.single u) : x.map e.encode ∈ subjReFwd.matches' ↔ ReFwd x := by
  rw [subjReFwd]
  constructor
  · intro h
    obtain ⟨w, y, rfl, hw, hy⟩ := map_mem_mul.mp h
    obtain ⟨hxw, hxy⟩ := single_append hx
    obtain ⟨d, z, rfl, hd, hz⟩ := map_mem_mul.mp hy
    obtain ⟨hxd, hxz⟩ := single_append hxy
    obtain ⟨o, c, rfl, ho, hc⟩ := map_mem_mul.mp hz
    obtain ⟨hxo, hxc⟩ := single_append hxz
    have hc' := spelled_singleton.mp ((spelled_iff (by decide) hxc).mp hc)
    have hd' := (spaces_iff hxd).mp hd
    refine ⟨w, d.length, o, (keyword_iff hxw).mp hw, ?_, ?_⟩
    · rcases map_mem_add.mp ho with ho | ho
      · exact .inr ((blob_iff hxo).mp ho)
      · exact .inl (map_mem_one.mp ho)
    · rw [← hd', hc']
      rfl
  · rintro ⟨w, k, o, hw, ho, rfl⟩
    obtain ⟨hxw, hxy⟩ := single_append hx
    obtain ⟨hxd, hxz⟩ := single_append hxy
    obtain ⟨hxo, hxc⟩ := single_append hxz
    refine map_mem_mul.mpr ⟨_, _, rfl, (keyword_iff hxw).mpr hw, map_mem_mul.mpr ⟨_, _, rfl, ?_, ?_⟩⟩
    · refine (spaces_iff hxd).mpr ?_
      rw [List.length_replicate]
    · refine map_mem_mul.mpr ⟨_, _, rfl, ?_, (spelled_iff (by decide) hxc).mpr (spelled_singleton.mpr rfl)⟩
      rcases ho with ho | ho
      · exact map_mem_add.mpr (.inr (map_mem_one.mpr ho))
      · exact map_mem_add.mpr (.inl ((blob_iff hxo).mpr ho))

lemma leader_iff (hx : ∀ u ∈ x, e.single u) : x.map e.encode ∈ subjLeader.matches' ↔ Leader x := by
  rw [subjLeader, map_mem_add, Leader, or_comm, spelled_iff (by decide) hx, spelled_singleton]
  refine or_congr Iff.rfl ?_
  constructor
  · intro h
    obtain ⟨y, r, rfl, hy, hr⟩ := map_mem_mul.mp h
    obtain ⟨hxy, hxr⟩ := single_append hx
    obtain ⟨bs, rfl, hbs⟩ := map_mem_star.mp hy
    refine ⟨bs, r, fun b hb => (blob_iff fun u hu => hxy u ?_).mp (hbs b hb), (reFwd_iff hxr).mp hr, rfl⟩
    exact List.mem_flatten.mpr ⟨b, hb, hu⟩
  · rintro ⟨bs, r, hbs, hr, rfl⟩
    obtain ⟨hxy, hxr⟩ := single_append hx
    refine map_mem_mul.mpr ⟨_, _, rfl, map_mem_star.mpr ⟨bs, rfl, fun b hb => ?_⟩, (reFwd_iff hxr).mpr hr⟩
    exact (blob_iff fun u hu => hxy u (List.mem_flatten.mpr ⟨b, hb, hu⟩)).mpr (hbs b hb)

/-- What the whole string has to be, to be without its first characters and its last one. -/
lemma forward_iff (hx : ∀ u ∈ x, e.single u) :
    x.map e.encode ∈ (subjFwdHdr * ((noneOf []).star * subjFwdTrl)).matches' ↔
      ∃ p m, Spelled fwdHdrChars p ∧ x = p ++ (m ++ [93]) := by
  constructor
  · intro h
    obtain ⟨p, y, rfl, hp, hy⟩ := map_mem_mul.mp h
    obtain ⟨hxp, hxy⟩ := single_append hx
    obtain ⟨m, c, rfl, -, hc⟩ := map_mem_mul.mp hy
    obtain ⟨-, hxc⟩ := single_append hxy
    refine ⟨p, m, (spelled_iff (by decide) hxp).mp hp, ?_⟩
    rw [spelled_singleton.mp ((spelled_iff (by decide) hxc).mp hc)]
    rfl
  · rintro ⟨p, m, hp, rfl⟩
    obtain ⟨hxp, hxy⟩ := single_append hx
    obtain ⟨hxm, hxc⟩ := single_append hxy
    refine map_mem_mul.mpr ⟨_, _, rfl, (spelled_iff (by decide) hxp).mpr hp, map_mem_mul.mpr ⟨_, _, rfl, ?_, ?_⟩⟩
    · exact (noneOf_iff rfl hxm).mpr fun u _ => List.not_mem_nil
    · exact (spelled_iff (by decide) hxc).mpr (spelled_singleton.mpr rfl)

end Languages

end Xperimentum.Pantomime.BaseSubject
