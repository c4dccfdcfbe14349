import HevTunnel.System
import HevTunnel.RingBuffer
import HevTunnel.MemoryPool
import HevTunnel.Heap
import HevTunnel.ThreadPool.WaitAll
import HevTunnel.SessionList
import HevTunnel.AdaptivePool.Adjust
import HevTunnel.Locking.Order
import HevTunnel.TunnelIO.Orphans
import HevTunnel.TunnelIO.Conservation
import HevTunnel.EbpfFilter
import HevTunnel.Simd
import HevTunnel.ConnectionPool
import HevTunnel.Socks5Tunnel.Handlers
import HevTunnel.Socks5Tunnel.Init
import HevTunnel.TunnelIO.Lifecycle
import HevTunnel.CpuAffinity
import HevTunnel.Simd.Memory
import HevTunnel.TunnelIO.Packet
import HevTunnel.IoUring
import HevTunnel.MemoryPool.Alone
import HevTunnel.TunnelIOEnhanced
import HevTunnel.TunnelIOEnhanced.Zerocopy
import HevTunnel.Socks5Tunnel.Run
import HevTunnel.ConnectionPool.Leak
import HevTunnel.Socks5Tunnel.Sessions
import HevTunnel.TunnelIO.Order
import HevTunnel.TunnelIO.Shutdown
import HevTunnel.TunnelIO.Stop
import HevTunnel.ThreadPool.Destroy
