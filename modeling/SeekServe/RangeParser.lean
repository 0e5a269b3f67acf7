import SeekServe.Types

/-! The parser of the HTTP `Range` header. It accepts single ranges only. -/

namespace SeekServe

set_option autoImplicit false

structure ParsedRange where
  start : Int
  /-- inclusive -/
  stop : Int
  deriving DecidableEq, Repr

/-- Case 1 of the parser, `bytes=-N`: the last `N` bytes. -/
def suffixRange (right : CxxString) (fileSize : Int) : Option ParsedRange :=
  if right = [] then none
  else
    match CxxString.stoll right with
    | none => none
    | some suffix =>
      if suffix ≤ 0 then none
      else if suffix ≥ fileSize then some ⟨0, fileSize - 1⟩
      else some ⟨fileSize - suffix, fileSize - 1⟩

/-- Cases 2 and 3 of the parser, `bytes=N-` and `bytes=start-end`. -/
def rangeFrom (left right : CxxString) (fileSize : Int) : Option ParsedRange :=
  match CxxString.stoll left with
  | none => none
  | some start =>
    if start < 0 then none
    else if right = [] then
      if start ≥ fileSize then none else some ⟨start, fileSize - 1⟩
    else
      match CxxString.stoll right with
      | none => none
      | some stop =>
        if stop < start then none
        else if start ≥ fileSize then none
        else some ⟨start, if stop ≥ fileSize then fileSize - 1 else stop⟩

/-- What follows `bytes=`. -/
def parseRangeSpec (spec : CxxString) (fileSize : Int) : Option ParsedRange :=
  if (CxxString.find [','] spec).isSome then none
  else
    let spec := CxxString.trimBack (CxxString.trimFront spec)
    if spec = [] then none
    else
      match CxxString.find ['-'] spec with
      | none => none
      | some dash =>
        let left := CxxString.trimBack (CxxString.substr spec 0 (some dash))
        let right := CxxString.trimFront (CxxString.substr spec (dash + 1) none)
        if left = [] then suffixRange right fileSize else rangeFrom left right fileSize

def parseRangeHeader (header : CxxString) (fileSize : Int) : Option ParsedRange :=
  if fileSize ≤ 0 then none
  else if header.take 6 ≠ "bytes=".toList then none
  else parseRangeSpec (CxxString.substr header 6 none) fileSize

/-- A range with both ends, in order, inside a file of the given size. -/
def ParsedRange.Inside (r : ParsedRange) (fileSize : Int) : Prop :=
  0 ≤ r.start ∧ r.start ≤ r.stop ∧ r.stop < fileSize

theorem inside_of_suffixRange {right : CxxString} {fileSize : Int} {r : ParsedRange}
    (hsize : 0 < fileSize) (h : suffixRange right fileSize = some r) : r.Inside fileSize := by
  unfold suffixRange at h
  split at h
  · cases h
  split at h
  · cases h
  split at h
  · cases h
  split at h <;> cases h <;> refine ⟨?_, ?_, ?_⟩ <;> simp only <;> omega

theorem inside_of_rangeFrom {left right : CxxString} {fileSize : Int} {r : ParsedRange}
    (h : rangeFrom left right fileSize = some r) : r.Inside fileSize := by
  unfold rangeFrom at h
  split at h
  · cases h
  split at h
  · cases h
  split at h
  · split at h <;> cases h
    refine ⟨?_, ?_, ?_⟩ <;> simp only <;> omega
  split at h
  · cases h
  split at h
  · cases h
  split at h <;> cases h
  refine ⟨?_, ?_, ?_⟩ <;> simp only <;> omega

theorem inside_of_parseRangeHeader {header : CxxString} {fileSize : Int} {r : ParsedRange}
    (h : parseRangeHeader header fileSize = some r) : r.Inside fileSize := by
  unfold parseRangeHeader at h
  split at h
  · cases h
  split at h
  · cases h
  unfold parseRangeSpec at h
  split at h
  · cases h
  simp only at h
  split at h
  · cases h
  split at h
  · cases h
  split at h
  · exact inside_of_suffixRange (by omega) h
  · exact inside_of_rangeFrom h

example : parseRangeHeader "bytes= 2 - 99 ".toList 10 = some ⟨2, 9⟩ := by decide

end SeekServe
