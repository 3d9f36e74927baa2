import StreamScope.Stream

/-!
The do-not-expand marker. An id that begins with it stands for its stream alone
and not for the streams below; what follows the marker is the id itself.
-/

namespace StreamScope.Marker

/-- The leading marker, if there is one, and what follows. -/
def cut (marker : Char) : List Char → List Char × List Char
  | [] => ([], [])
  | c :: rest => if c = marker then ([c], rest) else ([], c :: rest)

theorem cut_append (marker : Char) (cs : List Char) :
    (cut marker cs).1 ++ (cut marker cs).2 = cs := by
  cases cs with
  | nil => rfl
  | cons c rest => by_cases h : c = marker <;> simp [cut, h]

theorem cut_marked (marker : Char) (cs : List Char) :
    cut marker (marker :: cs) = ([marker], cs) := by
  simp [cut]

def isMarked (marker : Char) (id : StreamId) : Bool := id.text.toList.head? = some marker

/-- The id without its marker. -/
def strip (marker : Char) (id : StreamId) : StreamId :=
  ⟨String.ofList (cut marker id.text.toList).2⟩

theorem strip_of_not_isMarked {marker : Char} {id : StreamId} (h : isMarked marker id = false) :
    strip marker id = id := by
  cases id with
  | mk text =>
    have hcut : (cut marker text.toList).2 = text.toList := by
      cases hc : text.toList with
      | nil => rfl
      | cons c rest =>
        have hne : c ≠ marker := by simpa [isMarked, hc] using h
        simp [cut, hne]
    simp [strip, hcut]

end StreamScope.Marker
