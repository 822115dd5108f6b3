import LessonPages.Main
import LessonPages.Proofs.Reader
import LessonPages.Proofs.LineKind
import LessonPages.Proofs.Conservation
import LessonPages.Proofs.Segments
import LessonPages.Proofs.Effect
import LessonPages.Proofs.Below
import LessonPages.Proofs.Rules
import LessonPages.Proofs.Exact
import LessonPages.Proofs.BlockLines
import LessonPages.Proofs.Compose
import LessonPages.Proofs.PageReading
import LessonPages.Proofs.PatternBelow
import LessonPages.Proofs.Pruning
import LessonPages.Proofs.Absolute
import LessonPages.Proofs.Subfolder
import LessonPages.Proofs.Shape
import LessonPages.Proofs.OneLine
import LessonPages.Proofs.FailedLesson
import LessonPages.Proofs.Failures
import LessonPages.Proofs.Folders
import LessonPages.Proofs.Elsewhere
import LessonPages.Proofs.Again
import LessonPages.Proofs.Writer
import LessonPages.Proofs.Markers
import LessonPages.Proofs.DefaultDiscovery
import LessonPages.Proofs.LineEnds
import LessonPages.Proofs.Nearest
import LessonPages.Proofs.Extensions
import LessonPages.Proofs.IndexReading
import LessonPages.Proofs.ReadBack
import LessonPages.Proofs.Telling
import LessonPages.Proofs.States
import LessonPages.Proofs.Surrogates
