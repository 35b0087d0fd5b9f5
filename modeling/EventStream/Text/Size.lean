namespace EventStream

/-- The bytes of the characters in UTF-8. -/
def byteSize : List Char → Nat
  | [] => 0
  | c :: r => c.utf8Size + byteSize r

end EventStream
