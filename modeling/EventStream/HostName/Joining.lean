import EventStream.HostName.Direction

namespace EventStream.HostName

/-- Marks that take a place. -/
def spacingMarks : CharRuns := .ofCounts "
2307 1 55 1 2 3 8 4 1 2 50 2 58 3 6 2 2 2 10 1 43 1 58 3 66 1 58 3 8 1 1 2 53 2 58 1 1 1 6 2 2 2
10 1 102 2 1 2 3 3 1 3 10 1 41 3 61 4 61 2 58 7 1 3 1 2 9 2 43 2 58 3 5 3 1 3 10 1 42 2 75 3 6 8
18 2 330 2 63 1 171 2 4 1 6 1 2 2 25 2 10 3 2 7 21 2 2 6 2 1 10 3 1656 1 30 1 129 1 7 8 1 2 346 4
2 3 4 2 1 6 224 2 58 1 1 1 9 1 1 2 8 6 145 1 48 1 5 1 1 5 1 2 61 1 30 1 4 2 2 1 60 1 2 3 1 1 3 2
48 8 8 2 171 1 21 1 4918 2 30707 2 2 1 88 2 50 16 142 2 47 1 48 2 4 2 2 3 110 2 2 2 24 1 45 1 1 1
109 1 2 2 5 1 237 2 1 2 1 2 1 1 25619 1 1 1 127 1 45 3 4 2 115 1 24 2 59 1 48 3 9 2 13 1 93 3 3 2
1 1 170 3 31 2 58 2 1 4 2 2 2 3 9 1 10 2 209 3 8 2 3 1 106 3 6 1 1 4 2 1 237 3 6 4 2 1 113 3 8 2 1
1 109 1 1 2 6 1 105 2 4 1 261 3 9 1 247 6 1 2 4 1 2 1 1 1 142 3 8 4 4 1 34 2 48 1 29 2 62 1 407 1
14 2 105 1 7 1 2 1 213 5 4 2 1 1 350 2 20570 55 104 2 24947 2 6 6"

def isMark (c : Char) : Bool :=
  nonspacing.contains c || spacingMarks.contains c

/-- Signs that take the vowel from a letter, so that it goes together with the next one. -/
def viramas : CharRuns := .ofCounts "
2381 1 127 1 127 1 127 1 127 1 127 1 127 1 127 1 109 2 16 1 124 1 111 1 127 1 201 1 180 2 1753 2
30 1 157 1 653 1 227 1 101 2 70 2 4491 1 31366 1 37 1 151 1 142 1 108 1 309 1 246 1 24145 1 1542 1
41 1 14 1 57 1 121 2 139 1 116 1 180 1 98 1 244 1 127 1 252 1 127 1 118 1 116 1 269 1 259 2 161 1
83 1 18 1 81 1 421 1 260 2 81 1"

/-- Letters that join the letter after them. -/
def joinsOn : CharRuns := .ofCounts "
1568 1 5 1 1 1 1 5 4 13 1 7 1 2 35 2 9 15 18 38 1 2 9 1 1 1 1 2 40 3 2 1 18 3 5 4 1 9 1 1 1 1 1 2
31 11 3 15 2 4 1 1 2 3 2 6 74 33 86 5 2 1 1 10 1 1 10 1 1 4 2 1 29 1 2 5 1 1 16 10 5 2 2 6 1 15
3902 1 24 89 14 34 1 1 36757 51 21215 48 12 22 2 8 37 4 13 6 12 65 1 35 2 1 8 4 2 4 2 4 2 8 1 7 1
1 2 5 2 95 3 24 4 24 4 15 20 64 2 54 42 1 2 5 2 1 140 4 2 4 2 20 8 60 2 6 3019 5 8 1 5 10 1 3 10 4
145 1 1 1 3 3 1 2 1 1 2 1 28 2 337 34 1 1 415 2 1 2 104 3 1 17 12 3 28 4 2 12 46 1 1 2 4 1 2 2 1 2
1 1 2 1 5 2 55604 68 1213 2 4 12 1 4 1 7 1 2 1 1 2 1 1 10 1 4 1 1 1 1 6 1 4 1 1 1 1 1 1 3 1 2 1 1
2 1 1 1 1 1 1 1 1 1 1 2 1 1 2 4 1 7 1 4 1 4 1 1 2 2 1 1 2 3 1 8 1 4 1 3 5 2 4 3 1 8 1 4 1 3"

/-- Letters that join the letter before them. -/
def joinsBack : CharRuns := .ofCounts "
1568 1 1 30 1 10 35 2 1 3 1 95 1 1 24 2 10 3 2 1 16 1 1 30 29 51 74 33 85 25 7 1 1 4 1 4 5 19 3 1
2 7 16 13 1 27 3902 1 24 89 14 34 1 1 36757 50 21214 98 33 139 6 142 3 73 18 64 2 54 40 10 2 1 132
124 3011 6 1 1 1 2 3 9 1 10 2 1 6 5 144 18 23 6 338 35 414 3 1 2 104 21 12 4 27 18 46 1 1 5 1 8 1
4 4 2 55605 68 1212 4 1 27 1 2 1 1 2 1 1 10 1 4 1 1 1 1 6 1 4 1 1 1 1 1 1 3 1 2 1 1 2 1 1 1 1 1 1
1 1 1 1 2 1 1 2 4 1 7 1 4 1 4 1 1 1 10 1 17 5 3 1 5 1 17"

def joiner : Char := '\u200d'

def nonJoiner : Char := '\u200c'

/-- A joiner or a non-joiner follows a virama, or else a non-joiner parts two letters that would
join; marks between them do not count. The characters before come last first. -/
def joinersFit (before : List Char) : List Char → Bool
  | [] => true
  | c :: r =>
    (if c = joiner ∨ c = nonJoiner then
      before.head?.any viramas.contains ||
        (c = nonJoiner &&
          (before.dropWhile nonspacing.contains).head?.any joinsOn.contains &&
          (r.dropWhile nonspacing.contains).head?.any joinsBack.contains)
    else true) && joinersFit (c :: before) r

end EventStream.HostName
