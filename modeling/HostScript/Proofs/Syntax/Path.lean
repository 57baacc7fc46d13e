import HostScript.Proofs.Text.Separators
import HostScript.Syntax.Path

/-!
# Dotted names and their parts

Parts without dots can be joined by dots and found again, and what is joined by dots is any name at
all. The parts are found from the left, the member of a call behind the last dot; the two ways of
splitting agree (`dotted_names_split`).
-/

namespace HostScript

theorem dottedParts_ne_nil (name : String) : dottedParts name ≠ [] := by
  simp [dottedParts]

theorem joinDotted_dottedParts (name : String) : joinDotted (dottedParts name) = name := by
  apply String.toList_inj.mp
  simp [joinDotted, dottedParts, String.toList_intercalate, Function.comp_def]

theorem dottedParts_joinDotted {parts : List String} (hne : parts ≠ [])
    (hdot : ∀ part ∈ parts, '.' ∉ part.toList) : dottedParts (joinDotted parts) = parts := by
  have hsplit : (joinDotted parts).toList.splitOn '.' = parts.map String.toList := by
    rw [joinDotted, String.toList_intercalate]
    refine List.splitOn_intercalate '.' (fun letters hl => ?_) (by simpa using hne)
    obtain ⟨part, hpart, rfl⟩ := List.mem_map.mp hl
    exact hdot part hpart
  rw [dottedParts, hsplit, List.map_map]
  simp [Function.comp_def]

theorem dottedParts_dotless {name : String} (h : '.' ∉ name.toList) :
    dottedParts name = [name] := by
  simp [dottedParts, List.splitOn_eq_singleton h]

theorem dottedParts_behind (receiver : String) {member : String} (h : '.' ∉ member.toList) :
    dottedParts (receiver ++ "." ++ member) = dottedParts receiver ++ [member] := by
  simp [dottedParts, List.splitOn_append_cons_self, List.splitOn_eq_singleton h]

theorem exists_last_dot {name : String} (h : '.' ∈ name.toList) :
    ∃ receiver member, name = receiver ++ "." ++ member ∧ '.' ∉ member.toList := by
  obtain ⟨before, behind, hsplit, hdotless⟩ := exists_last_separator h
  refine ⟨String.ofList before, String.ofList behind, ?_, by simpa using hdotless⟩
  apply String.toList_inj.mp
  simpa using hsplit

-- ---------------------------------------------------------------------------
-- Paths
-- ---------------------------------------------------------------------------

theorem Segment.text_unindexed {s : Segment} (h : s.index = []) : s.text = s.name := by
  simp [text, h, String.join]

theorem Segment.named_name {s : Segment} (h : s.index = []) : named s.name = s := by
  cases s
  simp_all [named]

namespace Path

theorem text_unindexed {p : Path} (h : ∀ s ∈ p.segments, s.index = []) :
    p.text = joinDotted (p.segments.map Segment.name) := by
  rw [text, List.map_congr_left fun s hs => Segment.text_unindexed (h s hs)]

theorem text_named (parts : List String) :
    text ⟨parts.map Segment.named⟩ = joinDotted parts := by
  rw [text_unindexed (by simp [Segment.named])]
  simp [Segment.named, Function.comp_def]

theorem text_ofDotted (name : String) : (ofDotted name).text = name :=
  (text_named _).trans (joinDotted_dottedParts name)

theorem ofDotted_text {p : Path} (hne : p.segments ≠ [])
    (h : ∀ s ∈ p.segments, s.index = [] ∧ '.' ∉ s.name.toList) : ofDotted p.text = p := by
  obtain ⟨segments⟩ := p
  have hparts : dottedParts (text ⟨segments⟩) = segments.map Segment.name := by
    rw [text_unindexed fun s hs => (h s hs).1]
    refine dottedParts_joinDotted (by simpa using hne) ?_
    intro part hpart
    obtain ⟨s, hs, rfl⟩ := List.mem_map.mp hpart
    exact (h s hs).2
  rw [ofDotted, hparts, List.map_map]
  refine congrArg Path.mk ((List.map_congr_left ?_).trans (List.map_id _))
  intro s hs
  exact Segment.named_name (h s hs).1

theorem isSimple_ofDotted (name : String) : (ofDotted name).isSimple ↔ '.' ∉ name.toList := by
  constructor
  · intro hsimple hdot
    obtain ⟨receiver, member, rfl, hmember⟩ := exists_last_dot hdot
    simp only [ofDotted, dottedParts_behind receiver hmember] at hsimple
    cases hparts : dottedParts receiver with
    | nil => exact dottedParts_ne_nil receiver hparts
    | cons first rest => cases rest <;> simp [hparts, isSimple] at hsimple
  · intro hdot
    simp [ofDotted, dottedParts_dotless hdot, isSimple, Segment.named]

end Path

-- ---------------------------------------------------------------------------
-- The member of a call
-- ---------------------------------------------------------------------------

theorem receiverAndMember?_dotless {name : String} (h : '.' ∉ name.toList) :
    receiverAndMember? name = none := by
  simp [receiverAndMember?, dottedParts_dotless h]

theorem receiverAndMember?_parts {name member : String} {parts : List String} (hne : parts ≠ [])
    (h : dottedParts name = parts ++ [member]) :
    receiverAndMember? name = some (joinDotted parts, member) := by
  rw [receiverAndMember?, h, List.reverse_append]
  cases hparts : parts.reverse with
  | nil => simp_all
  | cons second rest =>
    have hback : parts = (second :: rest).reverse := by rw [← hparts, List.reverse_reverse]
    simp [hback]

theorem receiverAndMember?_behind (receiver : String) {member : String}
    (h : '.' ∉ member.toList) :
    receiverAndMember? (receiver ++ "." ++ member) = some (receiver, member) := by
  rw [receiverAndMember?_parts (dottedParts_ne_nil receiver) (dottedParts_behind receiver h),
    joinDotted_dottedParts]

theorem receiverAndMember?_joinDotted (parts : List String) {member : String} (hne : parts ≠ [])
    (hdot : ∀ part ∈ parts ++ [member], '.' ∉ part.toList) :
    receiverAndMember? (joinDotted (parts ++ [member])) = some (joinDotted parts, member) :=
  receiverAndMember?_parts hne (dottedParts_joinDotted (by simp) hdot)

theorem receiverAndMember?_eq_some {name receiver member : String} :
    receiverAndMember? name = some (receiver, member) ↔
      name = receiver ++ "." ++ member ∧ '.' ∉ member.toList := by
  constructor
  · intro h
    by_cases hdot : '.' ∈ name.toList
    · obtain ⟨before, behind, rfl, hbehind⟩ := exists_last_dot hdot
      rw [receiverAndMember?_behind before hbehind] at h
      cases h
      exact ⟨rfl, hbehind⟩
    · rw [receiverAndMember?_dotless hdot] at h
      cases h
  · rintro ⟨rfl, hmember⟩
    exact receiverAndMember?_behind receiver hmember

theorem receiverAndMember?_isSome (name : String) :
    (receiverAndMember? name).isSome ↔ '.' ∈ name.toList := by
  constructor
  · contrapose
    intro hdot
    simp [receiverAndMember?_dotless hdot]
  · intro hdot
    obtain ⟨receiver, member, rfl, hmember⟩ := exists_last_dot hdot
    simp [receiverAndMember?_behind receiver hmember]

/-- Every name is the text of the path that it writes, and every path without indices is written by
its text, unless a name in it has a dot. The path is that of a variable if the name has no dot. If
it has one, and only then, a call of the name has a receiver and a member: what stands before and
behind the last dot, which are the text of all segments but the last and the name of the last. -/
theorem dotted_names_split :
    (∀ name, (Path.ofDotted name).text = name) ∧
    (∀ p : Path, p.segments ≠ [] →
      (∀ s ∈ p.segments, s.index = [] ∧ '.' ∉ s.name.toList) →
      Path.ofDotted p.text = p) ∧
    (∀ name, (Path.ofDotted name).isSimple ↔ '.' ∉ name.toList) ∧
    (∀ name, (receiverAndMember? name).isSome ↔ '.' ∈ name.toList) ∧
    ∀ name receiver member, receiverAndMember? name = some (receiver, member) →
      (name = receiver ++ "." ++ member ∧ '.' ∉ member.toList) ∧
      ∃ before, before ≠ [] ∧ (Path.ofDotted name).segments = before ++ [.named member] ∧
        Path.text ⟨before⟩ = receiver := by
  refine ⟨Path.text_ofDotted, fun p => Path.ofDotted_text, Path.isSimple_ofDotted,
    receiverAndMember?_isSome, ?_⟩
  intro name receiver member h
  obtain ⟨rfl, hmember⟩ := receiverAndMember?_eq_some.mp h
  refine ⟨⟨rfl, hmember⟩, (dottedParts receiver).map Segment.named, ?_, ?_, ?_⟩
  · simpa using dottedParts_ne_nil receiver
  · simp [Path.ofDotted, dottedParts_behind receiver hmember]
  · rw [Path.text_named, joinDotted_dottedParts]

theorem dots_at_ends_split :
    Path.ofDotted (Path.text ⟨[.named "", .named "a", .named "", .named ""]⟩) =
        ⟨[.named "", .named "a", .named "", .named ""]⟩ ∧
      receiverAndMember? ".a.." = some (".a.", "") ∧
      ∃ before, before ≠ [] ∧ (Path.ofDotted ".a..").segments = before ++ [.named ""] ∧
        Path.text ⟨before⟩ = ".a." :=
  ⟨dotted_names_split.2.1 _ (by simp) (by simp [Segment.named]), rfl,
    (dotted_names_split.2.2.2.2 ".a.." ".a." "" rfl).2⟩

end HostScript
