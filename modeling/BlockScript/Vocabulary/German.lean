import BlockScript.Vocabulary.Pack

/-!
# The German pack

Specs and keywords of blocks in German.
-/

namespace BlockScript

/-- The German pack. -/
def germanPack : Pack where
  code := "de".toList
  blocks := Pack.ofStrings
    [("move _ steps", "gehe _ er-Schritt"),
     ("turn @arrow-ccw _ degrees", "drehe dich @arrow-ccw um _ Grad"),
     ("turn @arrow-cw _ degrees", "drehe dich @arrow-cw um _ Grad"),
     ("point in direction _", "setze Richtung auf _ Grad"),
     ("go to x:_ y:_", "gehe zu x: _ y: _"),
     ("change x by _", "ändere x um _"),
     ("set x to _", "setze x auf _"),
     ("change y by _", "ändere y um _"),
     ("set y to _", "setze y auf _"),
     ("if on edge, bounce", "pralle vom Rand ab"),
     ("x position", "x-Position"),
     ("y position", "y-Position"),
     ("say _ for _ secs", "sage _ für _ Sek."),
     ("say _", "sage _"),
     ("think _ for _ secs", "denke _ für _ Sek."),
     ("think _", "denke _"),
     ("show", "zeige dich"),
     ("hide", "verstecke dich"),
     ("next costume", "nächstes Kostüm"),
     ("play sound _", "spiele Klang _"),
     ("stop all sounds", "stoppe alle Klänge"),
     ("clear", "wische Malspuren weg"),
     ("pen down", "senke Stift ab"),
     ("pen up", "hebe Stift an"),
     ("set _ to _", "setze _ auf _"),
     ("change _ by _", "ändere _ um _"),
     ("add _ to _", "füge _ zu _ hinzu"),
     ("item _ of _", "Element _ von _"),
     ("length of _", "Länge von _"),
     ("when @green-flag clicked", "Wenn @green-flag angeklickt"),
     ("when I receive _", "Wenn ich _ empfange"),
     ("broadcast _", "sende _ an alle"),
     ("wait _ secs", "warte _ Sek."),
     ("repeat _", "wiederhole _ mal"),
     ("forever", "wiederhole fortlaufend"),
     ("if _ then", "falls _ , dann"),
     ("else", "sonst"),
     ("end", "Ende"),
     ("wait until _", "warte bis _"),
     ("repeat until _", "wiederhole bis _"),
     ("stop _", "stoppe _"),
     ("ask _ and wait", "frage _ und warte"),
     ("answer", "Antwort"),
     ("_ of _", "_ von _"),
     ("pick random _ to _", "Zufallszahl von _ bis _"),
     ("join _ _", "verbinde _ _"),
     ("round _", "gerundet _")]
  aliases := Pack.ofStrings
    [("Wenn die grüne Flagge angeklickt", "when @green-flag clicked"),
     ("drehe dich nach links um _ Grad", "turn @arrow-ccw _ degrees"),
     ("drehe dich nach rechts um _ Grad", "turn @arrow-cw _ degrees")]
  headerWords :=
    ["Definiere"].map String.toList
  signPhrases :=
    ["Wenn Entfernung"].map String.toList
  mathFunctions :=
    ["Betrag", "abrunden", "aufrunden", "Wurzel", "sin", "cos", "tan", "asin", "acos", "atan",
     "ln", "log", "e^", "10^"].map String.toList
  otherScripts :=
    ["andere Skripte der Figur", "andere Skripte der Bühne"].map String.toList

end BlockScript
